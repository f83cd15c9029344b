import SiteLint.Json

/-!
JSON values as text, two spaces to a level.

Empty arrays and objects are written on one line. In strings the quote, the backslash and the
control characters are escaped, and everything else stands for itself.
-/

namespace SiteLint.Json

/-- The letter that a character is escaped with, when it has one. -/
def escapeLetter? : Char → Option Char
  | '"' => some '"'
  | '\\' => some '\\'
  | '\x08' => some 'b'
  | '\x0c' => some 'f'
  | '\n' => some 'n'
  | '\r' => some 'r'
  | '\t' => some 't'
  | _ => none

/-- A character inside the quotes. -/
def escapeChar (c : Char) : List Char :=
  match escapeLetter? c with
  | some l => ['\\', l]
  | none =>
    if c.toNat < 0x20 then
      ['\\', 'u', '0', '0', Nat.digitChar (c.toNat / 16), Nat.digitChar (c.toNat % 16)]
    else [c]

/-- A text between quotes. -/
def quoted (cs : List Char) : List Char := '"' :: (cs.flatMap escapeChar ++ ['"'])

/-- A string; one without a text is written empty. -/
def quotedKey (k : Option String) : List Char := quoted ((k.map String.toList).getD [])

def writeNumeral (n : Text.Numeral) : List Char :=
  (if n.negative then ['-'] else []) ++ n.whole ++
    (match n.fraction with
     | some ds => '.' :: ds
     | none => []) ++
    (match n.exponent with
     | some e => 'e' :: (toString e).toList
     | none => [])

/-- The blanks in front of a line. -/
def indent (level : Nat) : List Char := List.replicate (2 * level) ' '

mutual

/-- A value that starts on a line of the given level. -/
def write (level : Nat) : Json → List Char
  | null => "null".toList
  | bool true => "true".toList
  | bool false => "false".toList
  | num n => writeNumeral n
  | str t => quotedKey t
  | arr [] => ['[', ']']
  | arr (v :: vs) => '[' :: '\n' :: (writeItems (level + 1) (v :: vs) ++ '\n' :: (indent level ++ [']']))
  | obj [] => ['\x7b', '\x7d']
  | obj (m :: ms) =>
    '\x7b' :: '\n' :: (writeMembers (level + 1) (m :: ms) ++ '\n' :: (indent level ++ ['\x7d']))

/-- Items, one to a line, with commas between them. -/
def writeItems (level : Nat) : List Json → List Char
  | [] => []
  | v :: vs =>
    indent level ++ (write level v ++
      match vs with
      | [] => []
      | w :: ws => ',' :: '\n' :: writeItems level (w :: ws))

/-- Members, one to a line, with commas between them. -/
def writeMembers (level : Nat) : List (Option String × Json) → List Char
  | [] => []
  | (k, v) :: ms =>
    indent level ++ (quotedKey k ++ ':' :: ' ' :: (write level v ++
      match ms with
      | [] => []
      | n :: ns => ',' :: '\n' :: writeMembers level (n :: ns)))

end

/-- The value as a document of its own, without a final line break. -/
def render (v : Json) : String := String.ofList (write 0 v)

end SiteLint.Json
