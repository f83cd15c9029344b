/-!
Colours of the terminal.

A style is switched on by an escape sequence in front of a text and off by one behind it.
-/

namespace SiteLint.Console

/-- The two sequences around a text. -/
structure Style where
  on : String
  off : String
  deriving DecidableEq, Repr

/-- The character that starts an escape sequence, with its bracket. -/
def escape : String := "\x1b["

/-- The sequence for a list of codes. -/
def sequence (codes : String) : String := escape ++ codes ++ "m"

namespace Style

/-- Black on green. -/
def good : Style := ⟨sequence "30;42", sequence "0"⟩

/-- White on red. -/
def bad : Style := ⟨sequence "37;41", sequence "0"⟩

/-- Black on yellow. -/
def place : Style := ⟨sequence "30;43", sequence "0"⟩

/-- Red letters. -/
def alarm : Style := ⟨sequence "31", sequence "39"⟩

/-- Bold letters in a colour. -/
def bold (colour : String) : Style :=
  ⟨sequence "1" ++ sequence colour, sequence "39" ++ sequence "0"⟩

/-- The text in the style, if colours are wanted. -/
def paint (s : Style) (colours : Bool) (text : String) : String :=
  if colours then s.on ++ text ++ s.off else text

end Style

end SiteLint.Console
