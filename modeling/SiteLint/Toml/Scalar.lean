import SiteLint.Text.Line
import SiteLint.Toml
import SiteLint.Toml.Text

/-!
Values of TOML that are written without marks: booleans, numbers, dates and times.
-/

namespace SiteLint.Toml

/-- Digits with single underscores between them, without the underscores. -/
def plainDigits? (isDigit : Char → Bool) (cs : List Char) : Option (List Char) :=
  let groups := Text.splitAt '_' cs
  if groups.all fun g => !g.isEmpty && g.all isDigit then some groups.flatten else none

def isDecimalDigit (c : Char) : Bool := (Text.digitValue? 10 c).isSome

/-- A sign, and what follows it. -/
def splitSign : List Char → Bool × List Char
  | '+' :: cs => (false, cs)
  | '-' :: cs => (true, cs)
  | cs => (false, cs)

/-- Decimal digits without a needless leading zero. -/
def wholeDigits? (cs : List Char) : Option (List Char) := do
  let ds ← plainDigits? isDecimalDigit cs
  if ds.head? = some '0' && ds.length ≠ 1 then none else some ds

/-- The number that digits write in a base. -/
def inBase? (base : Nat) (cs : List Char) : Option Nat := do
  let ds ← plainDigits? (fun c => (Text.digitValue? base c).isSome) cs
  Text.readDigits base ds

/-- Integers are refused from this size on. -/
def integerBound : Nat := Nat.pow 2 128

def integer? (cs : List Char) : Option Int := do
  let n : Int ←
    match cs with
    | '0' :: 'x' :: ds => (inBase? 16 ds).map Int.ofNat
    | '0' :: 'o' :: ds => (inBase? 8 ds).map Int.ofNat
    | '0' :: 'b' :: ds => (inBase? 2 ds).map Int.ofNat
    | _ =>
      let (negative, ds) := splitSign cs
      do
        let n ← Text.readDigits 10 (← wholeDigits? ds)
        some (if negative then -(n : Int) else n)
  if -(integerBound / 2 : Nat) ≤ n && n < (integerBound : Nat) then some n else none

/-- The power of ten of a float, after its letter. -/
def isExponent (cs : List Char) : Bool := (plainDigits? isDecimalDigit (splitSign cs).2).isSome

/-- A float: infinity, no number, or digits with a point, a power of ten or both. -/
def isFloat (cs : List Char) : Bool :=
  let cs := (splitSign cs).2
  cs = "inf".toList || cs = "nan".toList ||
    (let isLetter (c : Char) := c = 'e' || c = 'E'
     let mantissa := cs.takeWhile fun c => !isLetter c
     let power := cs.dropWhile fun c => !isLetter c
     let whole := mantissa.takeWhile (· ≠ '.')
     let point := mantissa.dropWhile (· ≠ '.')
     (wholeDigits? whole).isSome && (!point.isEmpty || !power.isEmpty) &&
       (point.isEmpty || (plainDigits? isDecimalDigit point.tail).isSome) &&
       (power.isEmpty || isExponent power.tail))

/-- The number that exactly `count` digits write. -/
def fixedDigits? (count : Nat) (cs : List Char) : Option (Nat × List Char) := do
  let ds := cs.take count
  if ds.length ≠ count then none
  let n ← Text.readDigits 10 ds
  some (n, cs.drop count)

/-- The days of a month. -/
def daysIn (year month : Nat) : Nat :=
  if month = 2 then
    if year % 4 = 0 && (year % 100 ≠ 0 || year % 400 = 0) then 29 else 28
  else if month = 4 || month = 6 || month = 9 || month = 11 then 30
  else 31

/-- What follows a date. -/
def afterDate? (cs : List Char) : Option (List Char) := do
  let (year, cs) ← fixedDigits? 4 cs
  let '-' :: cs := cs | none
  let (month, cs) ← fixedDigits? 2 cs
  let '-' :: cs := cs | none
  let (day, cs) ← fixedDigits? 2 cs
  if 1 ≤ month && month ≤ 12 && 1 ≤ day && day ≤ daysIn year month then some cs else none

/-- What follows a time of day; the seconds may be left out. -/
def afterTime? (cs : List Char) : Option (List Char) := do
  let (hour, cs) ← fixedDigits? 2 cs
  let ':' :: cs := cs | none
  let (minute, cs) ← fixedDigits? 2 cs
  if hour > 23 || minute > 59 then none
  match cs with
  | ':' :: cs =>
    let (second, cs) ← fixedDigits? 2 cs
    if second > 60 then none
    match cs with
    | '.' :: cs =>
      if (cs.takeWhile isDecimalDigit).isEmpty then none
      else some (cs.dropWhile isDecimalDigit)
    | cs => some cs
  | cs => some cs

/-- Nothing, or a distance from universal time. -/
def isOffset : List Char → Bool
  | [] => true
  | ['Z'] => true
  | ['z'] => true
  | c :: cs =>
    (c = '+' || c = '-') &&
      match fixedDigits? 2 cs with
      | some (hour, ':' :: cs) =>
        match fixedDigits? 2 cs with
        | some (minute, []) => hour ≤ 23 && minute ≤ 59
        | _ => false
      | _ => false

def isDateTime (cs : List Char) : Bool :=
  match afterDate? cs with
  | some [] => true
  | some (c :: rest) =>
    (c = 'T' || c = 't' || c = ' ') &&
      match afterTime? rest with
      | some rest => isOffset rest
      | none => false
  | none => afterTime? cs = some []

/-- The value of a text without marks. -/
def scalar? (cs : List Char) : Option Toml :=
  if cs = "true".toList then some (boolean true)
  else if cs = "false".toList then some (boolean false)
  else
    match integer? cs with
    | some n => some (integer n)
    | none =>
      if isFloat cs then some float
      else if isDateTime cs then some dateTime
      else none

/-- Characters that end a value without marks. -/
def endsScalar (c : Char) : Bool :=
  isBlank c || c = '\n' || c = '\r' || c = ',' || c = '#' || c = '[' || c = ']' ||
    c = '\x7b' || c = '\x7d' || c = '=' || c = '"' || c = '\''

/-- A value without marks, and what follows it. A date may be followed by one space and a time. -/
def scanScalar? (cs : List Char) : Option (Toml × List Char) :=
  let word := cs.takeWhile fun c => !endsScalar c
  let rest := cs.dropWhile fun c => !endsScalar c
  let joined :=
    match afterDate? word, rest with
    | some [], ' ' :: d :: more =>
      if isDecimalDigit d then
        some (word ++ ' ' :: (d :: more).takeWhile (fun c => !endsScalar c),
          (d :: more).dropWhile fun c => !endsScalar c)
      else none
    | _, _ => none
  let (word, rest) := joined.getD (word, rest)
  (scalar? word).map (·, rest)

end SiteLint.Toml
