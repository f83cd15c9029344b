/-!
TOML documents as values.

Only what a reader of settings asks for is kept: numbers and dates are told apart from texts, but
of them no more than the size of an integer is known.
-/

namespace SiteLint

/-- A TOML value. -/
inductive Toml
  | text (s : String)
  | boolean (b : Bool)
  | integer (n : Int)
  | float
  | dateTime
  | array (items : List Toml)
  | table (members : List (String × Toml))
  deriving Inhabited

end SiteLint
