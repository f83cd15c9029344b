/-!
Texts as lines and as pieces between separators.

A line ends with a line feed, alone or after one carriage return; what follows the last line feed
is a line when it is not empty.
-/

namespace SiteLint.Text

/-- The lines of a text, without their ends. -/
def lines : List Char → List (List Char)
  | [] => []
  | '\n' :: cs => [] :: lines cs
  | '\r' :: '\n' :: cs => [] :: lines cs
  | c :: cs =>
    match lines cs with
    | [] => [[c]]
    | l :: ls => (c :: l) :: ls

/-- The pieces of a text, or of its bytes, between the separators `sep`; there is one more piece than
separators. -/
def splitAt {α : Type} [DecidableEq α] (sep : α) : List α → List (List α)
  | [] => [[]]
  | c :: cs =>
    if c = sep then [] :: splitAt sep cs
    else
      match splitAt sep cs with
      | [] => [[c]]
      | p :: ps => (c :: p) :: ps

/-- Pieces with the separator `sep` between them. -/
def glue {α : Type} (sep : α) : List (List α) → List α
  | [] => []
  | [p] => p
  | p :: q :: ps => p ++ sep :: glue sep (q :: ps)

/-- The first place where `marker` occurs: what stands before it, and what follows it. -/
def breakAt (marker : List Char) : List Char → Option (List Char × List Char)
  | [] => if marker.isEmpty then some ([], []) else none
  | c :: cs =>
    if marker.isPrefixOf (c :: cs) then some ([], (c :: cs).drop marker.length)
    else (breakAt marker cs).map fun (before, after) => (c :: before, after)

theorem splitAt_ne_nil {α : Type} [DecidableEq α] (sep : α) (cs : List α) :
    splitAt sep cs ≠ [] := by
  cases cs with
  | nil => simp [splitAt]
  | cons c cs =>
    unfold splitAt
    split
    · simp
    · split <;> simp

end SiteLint.Text
