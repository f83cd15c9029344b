import SiteLint.Text.Digit

/-!
Numbers in decimal notation, and which of them a double can hold.

A numeral keeps its digits. Its value is exact; only the question whether that value is beyond
the largest double is ever asked of it.
-/

namespace SiteLint.Text

/-- A number as written: sign, digits before and after the point, and power of ten. -/
structure Numeral where
  negative : Bool
  whole : List Char
  fraction : Option (List Char)
  exponent : Option Int
  deriving DecidableEq, Repr

namespace Numeral

/-- The numeral that writes a natural number. -/
def ofNat (n : Nat) : Numeral := ⟨false, Nat.toDigits 10 n, none, none⟩

/-- All digits, as one number. -/
def significand (n : Numeral) : Nat :=
  ((readDigitsFrom 10 0 (n.whole ++ n.fraction.getD [])).getD 0)

/-- The power of ten that the significand is taken times. -/
def scale (n : Numeral) : Int := n.exponent.getD 0 - (n.fraction.getD []).length

/-- Neither point nor power of ten. -/
def isWhole (n : Numeral) : Bool := n.fraction.isNone && n.exponent.isNone

/-- The count that the numeral writes, when it writes one. -/
def count? (n : Numeral) : Option Nat :=
  if n.isWhole && !n.negative then readCount n.whole else none

/-- The least number that is rounded to infinity: half a unit above the largest double. -/
def overflowBound : Nat := Nat.pow 2 1024 - Nat.pow 2 970

/-- The value, sign aside, is rounded to infinity. The rounding is exact here. A reader that
multiplies doubles can err in the last place, and decides otherwise about some numbers next to the
bound: it may refuse `1.7976931348623158e308` and take `1.79769313486231581e308`. -/
def overflows (n : Numeral) : Bool :=
  let s := n.significand
  let places : Int := (n.whole.length + (n.fraction.getD []).length : Nat)
  if s = 0 then false
  else if n.scale ≥ 400 then true
  else if n.scale + places < 300 then false
  else if n.scale ≥ 0 then overflowBound ≤ s * Nat.pow 10 n.scale.toNat
  else overflowBound * Nat.pow 10 (-n.scale).toNat ≤ s

end Numeral

end SiteLint.Text
