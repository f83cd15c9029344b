import Mathlib.Data.List.Induction
import Mathlib.Tactic.Lemma
import SiteLint.Proofs.TextBytes
import SiteLint.Tree.Walk

/-!
Paths that are led on by names.

A path has one component more for each name put after it, whether it ends in a slash or not.
So the names can be read off again, and paths below a directory can be compared name by name.
-/

namespace SiteLint

/-- A name that an entry of a directory can have. -/
structure Name.IsProper (n : Name) : Prop where
  nonempty : n ≠ []
  noSlash : slash ∉ n
  notHere : n ≠ [dot]
  notUp : n ≠ [dot, dot]

instance (n : Name) : Decidable n.IsProper :=
  decidable_of_iff (n ≠ [] ∧ slash ∉ n ∧ n ≠ [dot] ∧ n ≠ [dot, dot])
    ⟨fun ⟨h₁, h₂, h₃, h₄⟩ => ⟨h₁, h₂, h₃, h₄⟩, fun ⟨h₁, h₂, h₃, h₄⟩ => ⟨h₁, h₂, h₃, h₄⟩⟩

namespace Name

lemma atMost_iff {n m : Name} : n.atMost m = true ↔ n ≤ m := decide_eq_true_iff

lemma pairwise_lt {α : Type} {name : α → Name} {as : List α} (h : (as.map name).Nodup) :
    (as.mergeSort fun a b => (name a).atMost (name b)).Pairwise fun a b => name a < name b := by
  have hsorted : (as.mergeSort fun a b => (name a).atMost (name b)).Pairwise
      fun a b => (name a).atMost (name b) = true := by
    refine List.pairwise_mergeSort (fun a b c hab hbc => ?_) (fun a b => ?_) as
    · exact atMost_iff.2 (List.le_trans (atMost_iff.1 hab) (atMost_iff.1 hbc))
    · rw [Bool.or_eq_true, atMost_iff, atMost_iff]
      exact List.le_total _ _
  have hdistinct : (as.mergeSort fun a b => (name a).atMost (name b)).Pairwise
      fun a b => name a ≠ name b :=
    List.pairwise_map.1 (((List.mergeSort_perm as _).map name).nodup_iff.2 h)
  refine hsorted.imp₂ (fun a b hle hne => ?_) hdistinct
  rcases List.le_iff_lt_or_eq.1 (atMost_iff.1 hle) with hlt | heq
  · exact hlt
  · exact absurd heq hne

end Name

namespace Text

variable {α : Type} [DecidableEq α]

lemma splitAt_append_sep (sep : α) (xs ys : List α) :
    splitAt sep (xs ++ sep :: ys) = splitAt sep xs ++ splitAt sep ys := by
  induction xs with
  | nil => simp [splitAt]
  | cons c cs ih =>
    rw [List.cons_append, splitAt, splitAt]
    split
    · rw [ih, List.cons_append]
    · rw [ih]
      cases h : splitAt sep cs with
      | nil => exact absurd h (splitAt_ne_nil sep cs)
      | cons p ps => rfl

lemma notMem_of_mem_splitAt {sep : α} {cs piece : List α} (h : piece ∈ splitAt sep cs) :
    sep ∉ piece := by
  induction cs generalizing piece with
  | nil =>
    obtain rfl : piece = [] := by simpa [splitAt] using h
    exact List.not_mem_nil
  | cons c cs ih =>
    rw [splitAt] at h
    split at h
    · rcases List.mem_cons.1 h with rfl | h
      · exact List.not_mem_nil
      · exact ih h
    · rename_i hc
      cases hsplit : splitAt sep cs with
      | nil => exact absurd hsplit (splitAt_ne_nil sep cs)
      | cons p ps =>
        rw [hsplit] at h ih
        rcases List.mem_cons.1 h with rfl | h
        · rw [List.mem_cons, not_or]
          exact ⟨Ne.symm hc, ih List.mem_cons_self⟩
        · exact ih (List.mem_cons_of_mem _ h)

lemma splitAt_of_notMem {sep : α} {cs : List α} (h : sep ∉ cs) :
    splitAt sep cs = [cs] := by
  induction cs with
  | nil => rfl
  | cons c cs ih =>
    rw [List.mem_cons, not_or] at h
    rw [splitAt, if_neg (Ne.symm h.1), ih h.2]

lemma splitAt_replicate (sep : α) (k : Nat) :
    splitAt sep (List.replicate k sep) = List.replicate (k + 1) [] := by
  induction k with
  | zero => rfl
  | succ k ih =>
    rw [List.replicate_succ, splitAt, if_pos rfl, ih]
    rfl

lemma splitAt_append_tail (sep : α) (cs : List α) :
    ∃ before last, ∀ tail, sep ∉ tail → splitAt sep (cs ++ tail) = before ++ [last ++ tail] := by
  induction cs using List.reverseRecOn with
  | nil => exact ⟨[], [], fun tail h => splitAt_of_notMem h⟩
  | append_singleton cs c ih =>
    by_cases hc : c = sep
    · refine ⟨splitAt sep cs, [], fun tail h => ?_⟩
      rw [hc, List.append_assoc, List.singleton_append, splitAt_append_sep, splitAt_of_notMem h,
        List.nil_append]
    · obtain ⟨before, last, hsplit⟩ := ih
      refine ⟨before, last ++ [c], fun tail h => ?_⟩
      rw [List.append_assoc, List.append_assoc, List.singleton_append]
      refine hsplit _ ?_
      rw [List.mem_cons, not_or]
      exact ⟨Ne.symm hc, h⟩

end Text

namespace Path

/-- The path that leads on from `p` by names. -/
def descend (p : Path) (ns : List Name) : Path := ns.foldl child p

lemma descend_cons (p : Path) (n : Name) (ns : List Name) :
    p.descend (n :: ns) = (p.child n).descend ns := rfl

lemma components_append_slash {bs : List UInt8} (h : bs ≠ []) :
    (⟨bs ++ [slash]⟩ : Path).components = (⟨bs⟩ : Path).components := by
  obtain ⟨b, bs, rfl⟩ := List.exists_cons_of_ne_nil h
  obtain ⟨piece, ps, hpieces⟩ := List.exists_cons_of_ne_nil (Text.splitAt_ne_nil slash (b :: bs))
  have hsplit := Text.splitAt_append_sep slash (b :: bs) []
  rw [hpieces] at hsplit
  simp only [components, isAbsolute, pieces, hpieces, hsplit]
  simp [Text.splitAt, List.filterMap_cons, Component.ofPiece?]

lemma ofPiece_name {n : Name} (hn : n.IsProper) : Component.ofPiece? n = some (.name n) := by
  simp [Component.ofPiece?, hn.nonempty, hn.notHere, hn.notUp]

lemma components_append_piece {bs n : List UInt8} (hn : slash ∉ n) :
    (⟨bs ++ slash :: n⟩ : Path).components =
      (⟨bs ++ [slash]⟩ : Path).components ++ (Component.ofPiece? n).toList := by
  obtain ⟨piece, ps, hpieces⟩ := List.exists_cons_of_ne_nil (Text.splitAt_ne_nil slash bs)
  have hname := Text.splitAt_append_sep slash bs n
  have hslash := Text.splitAt_append_sep slash bs []
  rw [hpieces] at hname hslash
  rw [Text.splitAt_of_notMem hn] at hname
  have hhead : (bs ++ slash :: n).head? = (bs ++ [slash]).head? := by cases bs <;> rfl
  have hfirst (qs : List (List UInt8)) : (piece :: ps ++ qs).head? = some piece := rfl
  have hempty : Component.ofPiece? [] = none := rfl
  have hpiece : [n].filterMap Component.ofPiece? = (Component.ofPiece? n).toList := by
    cases h : Component.ofPiece? n <;> simp [h]
  simp only [components, isAbsolute, pieces, hname, hslash, hhead, hfirst, List.filterMap_append,
    hpiece, Text.splitAt]
  simp [hempty]

lemma isAbsolute_piece {n : Name} (hn : slash ∉ n) : (⟨n⟩ : Path).isAbsolute = false := by
  simpa [isAbsolute] using mt List.mem_of_mem_head? hn

lemma bytes_join_eq {p q : Path} (hp : p.bytes ≠ []) (hq : q.isAbsolute = false) :
    ∃ bs, (p.join q).bytes = bs ++ slash :: q.bytes ∧ (p.bytes = bs ++ [slash] ∨ p.bytes = bs) := by
  simp only [join, hq, Bool.false_eq_true, if_false, hp, false_or]
  split
  · rename_i hslash
    obtain ⟨bs, hbs⟩ := List.getLast?_eq_some_iff.1 hslash
    exact ⟨bs, by simp [hbs], .inl hbs⟩
  · exact ⟨p.bytes, rfl, .inr rfl⟩

lemma bytes_child_eq {p : Path} {n : Name} (hp : p.bytes ≠ []) (hn : slash ∉ n) :
    ∃ bs, (p.child n).bytes = bs ++ slash :: n ∧ (p.bytes = bs ++ [slash] ∨ p.bytes = bs) :=
  bytes_join_eq hp (isAbsolute_piece hn)

lemma components_child_piece {p : Path} {n : Name} (hp : p.bytes ≠ []) (hn : slash ∉ n) :
    (p.child n).components = p.components ++ (Component.ofPiece? n).toList := by
  obtain ⟨bs, hchild, hbs⟩ := bytes_child_eq hp hn
  have hpath : p.child n = ⟨bs ++ slash :: n⟩ := congrArg Path.mk hchild
  rw [hpath, components_append_piece hn]
  obtain ⟨bytes⟩ := p
  rcases hbs with rfl | rfl
  · rfl
  · rw [components_append_slash hp]

lemma components_child {p : Path} {n : Name} (hp : p.bytes ≠ []) (hn : n.IsProper) :
    (p.child n).components = p.components ++ [.name n] := by
  rw [components_child_piece hp hn.noSlash, ofPiece_name hn]
  rfl

lemma bytes_child_ne_nil {p : Path} {n : Name} (hp : p.bytes ≠ []) (hn : n.IsProper) :
    (p.child n).bytes ≠ [] := by
  unfold child join
  split
  · exact hn.nonempty
  · split <;> simp [hp]

lemma bytes_descend_ne_nil {p : Path} {ns : List Name} (hp : p.bytes ≠ [])
    (hns : ∀ n ∈ ns, n.IsProper) : (p.descend ns).bytes ≠ [] := by
  induction ns generalizing p with
  | nil => exact hp
  | cons n ns ih =>
    rw [List.forall_mem_cons] at hns
    exact ih (bytes_child_ne_nil hp hns.1) hns.2

/-- The names that led to `p` from the directory `dir`. -/
def namesBelow (dir p : Path) : List Name :=
  (p.components.drop dir.components.length).map Component.bytes

lemma components_descend {p : Path} {ns : List Name} (hp : p.bytes ≠ [])
    (hns : ∀ n ∈ ns, n.IsProper) :
    (p.descend ns).components = p.components ++ ns.map .name := by
  induction ns generalizing p with
  | nil => simp [descend]
  | cons n ns ih =>
    have hn := hns n (by simp)
    have hrest := ih (bytes_child_ne_nil hp hn) fun m hm => hns m (by simp [hm])
    rw [components_child hp hn] at hrest
    simpa [descend] using hrest

lemma namesBelow_descend {p : Path} {ns : List Name} (hp : p.bytes ≠ [])
    (hns : ∀ n ∈ ns, n.IsProper) : p.namesBelow (p.descend ns) = ns := by
  rw [namesBelow, components_descend hp hns, List.drop_left, List.map_map]
  exact List.map_id ns

/-! ### The length of a path -/

lemma le_length_child {p : Path} {n : Name} (hp : p.bytes ≠ []) (hn : n.IsProper) :
    p.bytes.length + n.length ≤ (p.child n).bytes.length := by
  obtain ⟨bs, hchild, hbs⟩ := bytes_child_eq hp hn.noSlash
  rw [hchild, List.length_append, List.length_cons]
  rcases hbs with hbs | hbs
  · rw [hbs, List.length_append, List.length_singleton]
    omega
  · rw [hbs]
    omega

lemma length_le_descend {p : Path} {ns : List Name} (hp : p.bytes ≠ [])
    (hns : ∀ n ∈ ns, n.IsProper) : p.bytes.length ≤ (p.descend ns).bytes.length := by
  induction ns generalizing p with
  | nil => exact Nat.le_refl _
  | cons n ns ih =>
    rw [List.forall_mem_cons] at hns
    have hchild := le_length_child hp hns.1
    have hrest := ih (bytes_child_ne_nil hp hns.1) hns.2
    rw [descend_cons]
    omega

end Path

end SiteLint
