/-!
Sets of characters given by closed ranges of code points.

The tables are ascending, and their ranges do not touch.
-/

namespace SiteLint.Text

/-- The code point `n` lies in one of the closed ranges `rs`. -/
def inRanges (rs : List (Nat × Nat)) (n : Nat) : Bool :=
  rs.any fun r => r.1 ≤ n && n ≤ r.2

end SiteLint.Text
