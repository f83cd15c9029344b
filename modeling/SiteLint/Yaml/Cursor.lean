/-!
A place in a YAML text.

The column counts characters since the last line break. Five characters break lines, and a
carriage return with a line feed breaks one line.
-/

namespace SiteLint.Yaml

/-- Space or tab. -/
def isBlank (c : Char) : Bool := c = ' ' || c = '\t'

/-- A character that ends a line. -/
def isBreak (c : Char) : Bool :=
  c = '\n' || c = '\r' || c = '\x85' || c = '\u2028' || c = '\u2029'

/-- A letter, digit, hyphen or underscore of ASCII. -/
def isWord (c : Char) : Bool :=
  let n := c.toNat
  (0x30 ≤ n && n ≤ 0x39) || (0x41 ≤ n && n ≤ 0x5A) || (0x61 ≤ n && n ≤ 0x7A) || c = '_' || c = '-'

/-- The characters a document may hold. -/
def isAllowed (c : Char) : Bool :=
  let n := c.toNat
  n = 0x09 || n = 0x0A || n = 0x0D || (0x20 ≤ n && n ≤ 0x7E) || n = 0x85 ||
    (0xA0 ≤ n && n ≤ 0xD7FF) || (0xE000 ≤ n && n ≤ 0xFFFD) || 0x10000 ≤ n

/-- What is still to be read, and where that is. -/
structure Cursor where
  rest : List Char
  index : Nat
  line : Nat
  column : Nat

namespace Cursor

def start (cs : List Char) : Cursor := ⟨cs, 0, 0, 0⟩

/-- Enough steps to read what is left. -/
def fuel (c : Cursor) : Nat := c.rest.length + 1

/-- The character at a distance. -/
def peekAt (c : Cursor) (i : Nat) : Option Char := (c.rest.drop i).head?

def peek (c : Cursor) : Option Char := c.rest.head?

/-- The text goes on with the character. -/
def sees (c : Cursor) (x : Char) : Bool := c.peek = some x

/-- At a distance stand a blank, a line break or the end. -/
def gapAt (c : Cursor) (i : Nat) : Bool :=
  match c.peekAt i with
  | none => true
  | some x => isBlank x || isBreak x

/-- The text goes on with a space or tab. -/
def atBlank (c : Cursor) : Bool := c.peek.any isBlank

def atBreak (c : Cursor) : Bool := c.peek.any isBreak

/-- The text is over. -/
def atEnd (c : Cursor) : Bool := c.rest.isEmpty

/-- A line break or the end. -/
def atLineEnd (c : Cursor) : Bool := c.atEnd || c.atBreak

/-- Past some characters of a line. -/
def skip (c : Cursor) (n : Nat) : Cursor :=
  ⟨c.rest.drop n, c.index + n, c.line, c.column + n⟩

/-- Past the characters of a line that have a property. -/
def skipWhile (c : Cursor) (p : Char → Bool) : Cursor := c.skip (c.rest.takeWhile p).length

/-- Past a line break. -/
def skipBreak (c : Cursor) : Cursor :=
  match c.rest with
  | '\r' :: '\n' :: cs => ⟨cs, c.index + 2, c.line + 1, 0⟩
  | _ :: cs => ⟨cs, c.index + 1, c.line + 1, 0⟩
  | [] => c

/-- The line break as it counts in a text. -/
def breakText (c : Cursor) : List Char :=
  match c.rest with
  | '\u2028' :: _ => ['\u2028']
  | '\u2029' :: _ => ['\u2029']
  | [] => []
  | _ :: _ => ['\n']

/-- A mark of the start or end of a document stands here. -/
def atDocumentMark (c : Cursor) : Bool :=
  c.column = 0 && (c.rest.take 3 = ['-', '-', '-'] || c.rest.take 3 = ['.', '.', '.']) && c.gapAt 3

/-- Past a comment, up to the end of the line. -/
def skipComment (c : Cursor) : Cursor :=
  if c.sees '#' then c.skipWhile (fun x => !isBreak x) else c

end Cursor

end SiteLint.Yaml
