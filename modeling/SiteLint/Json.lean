import SiteLint.Text.Decimal

/-!
JSON documents as values.

Numbers keep their digits and objects keep all members in order, repeated names included. A text
written with half of a surrogate pair stands for no string; it is kept as such, because only a
reader who needs the string has to refuse it.
-/

namespace SiteLint

/-- A JSON value. The text of a string is missing when its escapes leave a surrogate unpaired. -/
inductive Json
  | null
  | bool (b : Bool)
  | num (n : Text.Numeral)
  | str (text : Option String)
  | arr (items : List Json)
  | obj (members : List (Option String × Json))
  deriving Inhabited

namespace Json

def text (s : String) : Json := str (some s)

def nat (n : Nat) : Json := num (Text.Numeral.ofNat n)

/-- An object whose names are all texts. -/
def record (members : List (String × Json)) : Json := obj (members.map fun (k, v) => (some k, v))

end Json

end SiteLint
