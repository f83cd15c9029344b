/-!
Sets of texts, in the order of their characters.

The order and the repetition of what goes in do not show: two lists with the same texts make the
same set.
-/

namespace SiteLint

/-- A set of texts, kept in the order of their characters. -/
structure TextSet where
  texts : List String
  sorted : texts.Pairwise (· < ·)
  deriving DecidableEq, Repr

namespace TextSet

/-- Puts a text in its place among texts in order; one that is there already is not put twice. -/
def insertText (s : String) : List String → List String
  | [] => [s]
  | t :: ts => if s < t then s :: t :: ts else if t < s then t :: insertText s ts else t :: ts

theorem mem_insertText {s x : String} {ts : List String} :
    x ∈ insertText s ts ↔ x = s ∨ x ∈ ts := by
  induction ts with
  | nil => simp [insertText]
  | cons t ts ih =>
    unfold insertText
    split
    · simp
    · split
      · rw [List.mem_cons, ih, List.mem_cons, or_left_comm]
      · next h₁ h₂ =>
        have : s = t := String.le_antisymm (Std.not_lt.mp h₂) (Std.not_lt.mp h₁)
        subst this
        simp

theorem sorted_insertText {s : String} {ts : List String} (h : ts.Pairwise (· < ·)) :
    (insertText s ts).Pairwise (· < ·) := by
  induction ts with
  | nil => simp [insertText]
  | cons t ts ih =>
    have ht := List.pairwise_cons.mp h
    unfold insertText
    split
    · next hs =>
      refine List.pairwise_cons.mpr ⟨fun x hx => ?_, h⟩
      rcases List.mem_cons.mp hx with rfl | hx
      · exact hs
      · exact String.lt_trans hs (ht.1 x hx)
    · split
      · next h₂ =>
        refine List.pairwise_cons.mpr ⟨fun x hx => ?_, ih ht.2⟩
        rcases mem_insertText.mp hx with rfl | hx
        · exact h₂
        · exact ht.1 x hx
      · exact h

def empty : TextSet := ⟨[], List.Pairwise.nil⟩

def insert (s : String) (set : TextSet) : TextSet :=
  ⟨insertText s set.texts, sorted_insertText set.sorted⟩

/-- The set of the texts of a list. -/
def ofList : List String → TextSet
  | [] => empty
  | s :: ss => (ofList ss).insert s

theorem mem_ofList {x : String} {ss : List String} : x ∈ (ofList ss).texts ↔ x ∈ ss := by
  induction ss with
  | nil => simp [ofList, empty]
  | cons s ss ih => simp [ofList, insert, mem_insertText, ih]

end TextSet

end SiteLint
