import SiteLint.Text.Line

/-!
What is done to the output of a tool before it is read.
-/

namespace SiteLint

inductive OutputFilter
  /-- Cuts off the marker and everything after it, from the first place where it occurs. -/
  | truncateAt (marker : String)
  deriving DecidableEq, Repr

namespace OutputFilter

def apply : OutputFilter → List Char → List Char
  | truncateAt marker, cs =>
    match Text.breakAt marker.toList cs with
    | some (before, _) => before
    | none => cs

/-- One filter after the other. -/
def applyAll (filters : List OutputFilter) (cs : List Char) : List Char :=
  filters.foldl (fun cs f => f.apply cs) cs

end OutputFilter

end SiteLint
