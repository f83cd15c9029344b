import SiteLint.Text.Digit

/-!
Strings of TOML.

A basic string stands between quotes and has escapes; a literal string stands between apostrophes
and has none. Tripled marks allow line breaks inside: one right after the opening mark does not
count, and a backslash at the end of a line takes away all blanks up to the next text.
-/

namespace SiteLint.Toml

/-- Space or tab. -/
def isBlank (c : Char) : Bool := c = ' ' || c = '\t'

/-- A control character other than tab; line ends are among them. -/
def isControl (c : Char) : Bool := (c.toNat < 0x20 && c ≠ '\t') || c.toNat = 0x7F

/-- The text without the blanks it starts with. -/
def skipBlanks (cs : List Char) : List Char := cs.dropWhile isBlank

/-- What follows a line end. -/
def afterLineEnd? : List Char → Option (List Char)
  | '\n' :: cs => some cs
  | '\r' :: '\n' :: cs => some cs
  | _ => none

/-- The character with a code point, if it is one. -/
def ofCodePoint? (digits : List Char) : Option Char := do
  let n ← Text.readDigits 16 digits
  if n < 0xD800 || (0xE000 ≤ n && n < 0x110000) then some (Char.ofNat n) else none

/-- The character that an escape stands for, and what follows; the backslash is read already. -/
def scanEscape : List Char → Option (Char × List Char)
  | 'b' :: cs => some ('\x08', cs)
  | 't' :: cs => some ('\t', cs)
  | 'n' :: cs => some ('\n', cs)
  | 'f' :: cs => some ('\x0c', cs)
  | 'r' :: cs => some ('\r', cs)
  | 'e' :: cs => some ('\x1b', cs)
  | '"' :: cs => some ('"', cs)
  | '\\' :: cs => some ('\\', cs)
  | 'x' :: a :: b :: cs => (ofCodePoint? [a, b]).map (·, cs)
  | 'u' :: a :: b :: c :: d :: cs => (ofCodePoint? [a, b, c, d]).map (·, cs)
  | 'U' :: a :: b :: c :: d :: e :: f :: g :: h :: cs =>
    (ofCodePoint? [a, b, c, d, e, f, g, h]).map (·, cs)
  | _ => none

/-- A basic string after its opening quote. `fuel` is at least the length of the text. -/
def scanBasic : Nat → List Char → Option (List Char × List Char)
  | 0, _ => none
  | fuel + 1, cs =>
    match cs with
    | [] => none
    | '"' :: rest => some ([], rest)
    | '\\' :: rest => do
      let (c, rest) ← scanEscape rest
      let (s, rest) ← scanBasic fuel rest
      some (c :: s, rest)
    | c :: rest =>
      if isControl c then none
      else (scanBasic fuel rest).map fun (s, rest) => (c :: s, rest)

/-- A literal string after its opening apostrophe. -/
def scanLiteral : List Char → Option (List Char × List Char)
  | [] => none
  | '\'' :: rest => some ([], rest)
  | c :: rest =>
    if isControl c then none else (scanLiteral rest).map fun (s, rest) => (c :: s, rest)

/-- The end of a text between tripled marks: one or two marks may stand before the last three. -/
def closing? (mark : Char) (cs : List Char) : Option (List Char × List Char) :=
  let marks := cs.takeWhile (· = mark)
  if marks.length < 3 then none
  else
    let extra := min (marks.length - 3) 2
    some (List.replicate extra mark, cs.drop (extra + 3))

/-- What follows a backslash at the end of a line and the blanks and line ends after it. -/
def afterContinuation? (cs : List Char) : Option (List Char) :=
  (afterLineEnd? (skipBlanks cs)).map fun rest =>
    rest.dropWhile fun c => isBlank c || c = '\n' || c = '\r'

/-- A basic string between tripled quotes, after the opening ones. -/
def scanLongBasic : Nat → List Char → Option (List Char × List Char)
  | 0, _ => none
  | fuel + 1, cs =>
    match closing? '"' cs with
    | some found => some found
    | none =>
      match cs with
      | [] => none
      | '\\' :: rest =>
        match afterContinuation? rest with
        | some rest => scanLongBasic fuel rest
        | none => do
          let (c, rest) ← scanEscape rest
          let (s, rest) ← scanLongBasic fuel rest
          some (c :: s, rest)
      | c :: rest =>
        match afterLineEnd? cs with
        | some rest => (scanLongBasic fuel rest).map fun (s, rest) => ('\n' :: s, rest)
        | none =>
          if isControl c then none
          else (scanLongBasic fuel rest).map fun (s, rest) => (c :: s, rest)

/-- A literal string between tripled apostrophes, after the opening ones. -/
def scanLongLiteral : Nat → List Char → Option (List Char × List Char)
  | 0, _ => none
  | fuel + 1, cs =>
    match closing? '\'' cs with
    | some found => some found
    | none =>
      match cs with
      | [] => none
      | c :: rest =>
        match afterLineEnd? cs with
        | some rest => (scanLongLiteral fuel rest).map fun (s, rest) => ('\n' :: s, rest)
        | none =>
          if isControl c then none
          else (scanLongLiteral fuel rest).map fun (s, rest) => (c :: s, rest)

/-- The text without the line end it starts with. -/
def dropLineEnd (cs : List Char) : List Char := (afterLineEnd? cs).getD cs

/-- A string on one line, with the marks it starts with. -/
def scanShort? (cs : List Char) : Option (List Char × List Char) :=
  match cs with
  | '"' :: rest => scanBasic (rest.length + 1) rest
  | '\'' :: rest => scanLiteral rest
  | _ => none

/-- Any string, with the marks it starts with. -/
def scanText? (cs : List Char) : Option (List Char × List Char) :=
  match cs with
  | '"' :: '"' :: '"' :: rest => scanLongBasic (rest.length + 1) (dropLineEnd rest)
  | '\'' :: '\'' :: '\'' :: rest => scanLongLiteral (rest.length + 1) (dropLineEnd rest)
  | _ => scanShort? cs

end SiteLint.Toml
