import Mathlib.Tactic.Lemma
import SiteLint.Proofs.PathNames
import SiteLint.Tree

/-!
What is found where in a tree.

In a well-formed tree the names of a directory are proper and all different, so the order in which
its entries are stored has no part in what is found at a location.
-/

namespace SiteLint.Entry

/-! ### Lookups -/

lemma at?_cons (n : Name) (es : List Entry) (m : Name) (ms : List Name) :
    (directory n es).at? (m :: ms) = (find? m es).bind (·.at? ms) := by
  rw [at?]
  cases find? m es <;> rfl

lemma at?_append {tree e : Entry} {l : List Name} (h : tree.at? l = some e) (ms : List Name) :
    tree.at? (l ++ ms) = e.at? ms := by
  induction l generalizing tree with
  | nil =>
    obtain rfl : tree = e := by simpa [at?] using h
    rfl
  | cons n l ih =>
    cases tree with
    | file => cases h
    | link => cases h
    | directory m es =>
      rw [at?_cons] at h
      rw [List.cons_append, at?_cons]
      obtain ⟨d, hfind, hd⟩ := Option.bind_eq_some_iff.1 h
      rw [hfind, Option.bind_some, ih hd]

lemma find?_eq_at? {tree : Entry} {l : List Name} {m : Name} {es : List Entry}
    (h : tree.at? l = some (directory m es)) (n : Name) : find? n es = tree.at? (l ++ [n]) := by
  rw [at?_append h, at?_cons]
  cases find? n es <;> simp [at?]

lemma at?_hereditary {P : Entry → Prop} (hP : ∀ n es, P (directory n es) → ∀ e ∈ es, P e)
    {tree e : Entry} {l : List Name} (htree : P tree) (h : tree.at? l = some e) : P e := by
  induction l generalizing tree with
  | nil =>
    obtain rfl : tree = e := by simpa [at?] using h
    exact htree
  | cons n l ih =>
    cases tree with
    | file => cases h
    | link => cases h
    | directory m es =>
      rw [at?_cons] at h
      obtain ⟨d, hfind, hd⟩ := Option.bind_eq_some_iff.1 h
      exact ih (hP m es htree d (List.mem_of_find?_eq_some hfind)) hd

@[elab_as_elim]
lemma nested_induction {P : Entry → Prop} (file : ∀ n bytes, P (.file n bytes))
    (link : ∀ n target, P (.link n target))
    (directory : ∀ n es, (∀ e ∈ es, P e) → P (.directory n es)) (e : Entry) : P e := by
  match e with
  | .file n bytes => exact file n bytes
  | .link n target => exact link n target
  | .directory n es =>
    exact directory n es fun d hd => nested_induction file link directory d
  termination_by sizeOf e
  decreasing_by
    have := List.sizeOf_lt_of_mem hd
    simp only [Entry.directory.sizeOf_spec]
    omega

/-! ### Well-formed trees -/

/-- The names in every directory are proper and all different. -/
inductive WellFormed : Entry → Prop
  | file (n : Name) (bytes : List UInt8) : WellFormed (.file n bytes)
  | link (n : Name) (target : Path) : WellFormed (.link n target)
  | directory (n : Name) (es : List Entry) (distinct : (es.map name).Nodup)
      (proper : ∀ e ∈ es, e.name.IsProper) (inside : ∀ e ∈ es, WellFormed e) :
      WellFormed (.directory n es)

mutual

/-- The names in the directory, and in all directories below it, are proper and all different. -/
def isWellFormed : Entry → Bool
  | file _ _ => true
  | link _ _ => true
  | directory _ es => decide (es.map name).Nodup && areWellFormed es

/-- The entries have proper names and are well-formed. -/
def areWellFormed : List Entry → Bool
  | [] => true
  | e :: es => decide e.name.IsProper && e.isWellFormed && areWellFormed es

end

lemma areWellFormed_iff {es : List Entry} :
    areWellFormed es = true ↔ ∀ e ∈ es, e.name.IsProper ∧ e.isWellFormed = true := by
  induction es with
  | nil => simp [areWellFormed]
  | cons e es ih => simp [areWellFormed, ih]

lemma wellFormed_of_isWellFormed (e : Entry) (h : e.isWellFormed = true) : e.WellFormed := by
  induction e using nested_induction with
  | file n bytes => exact .file n bytes
  | link n target => exact .link n target
  | directory n es ih =>
    rw [isWellFormed, Bool.and_eq_true, decide_eq_true_iff, areWellFormed_iff] at h
    exact .directory n es h.1 (fun d hd => (h.2 d hd).1) fun d hd => ih d hd (h.2 d hd).2

lemma WellFormed.isWellFormed {e : Entry} (h : e.WellFormed) : e.isWellFormed = true := by
  induction h with
  | file | link => rfl
  | directory n es distinct proper inside ih =>
    rw [Entry.isWellFormed, Bool.and_eq_true, decide_eq_true_iff, areWellFormed_iff]
    exact ⟨distinct, fun e he => ⟨proper e he, ih e he⟩⟩

instance (e : Entry) : Decidable e.WellFormed :=
  decidable_of_iff (e.isWellFormed = true)
    ⟨e.wellFormed_of_isWellFormed, WellFormed.isWellFormed⟩

lemma find?_eq_some_iff {n : Name} {es : List Entry} {e : Entry} (h : (es.map name).Nodup) :
    find? n es = some e ↔ e ∈ es ∧ e.name = n := by
  constructor
  · intro hfind
    exact ⟨List.mem_of_find?_eq_some hfind, by simpa using List.find?_some hfind⟩
  · rintro ⟨he, rfl⟩
    induction es with
    | nil => cases he
    | cons d es ih =>
      rw [List.map_cons, List.nodup_cons] at h
      rw [find?, List.find?_cons]
      rcases List.mem_cons.1 he with rfl | he
      · simp
      · have hne : d.name ≠ e.name := fun heq => h.1 (heq ▸ List.mem_map_of_mem he)
        simpa [hne, find?] using ih h.2 he

namespace WellFormed

lemma of_at {tree e : Entry} {l : List Name} (h : tree.WellFormed) (he : tree.at? l = some e) :
    e.WellFormed := by
  refine at?_hereditary (fun n es hes => ?_) h he
  cases hes with
  | directory _ _ _ _ inside => exact inside

lemma proper_of_at {tree e : Entry} {l : List Name} (h : tree.WellFormed)
    (he : tree.at? l = some e) : ∀ n ∈ l, n.IsProper := by
  induction h generalizing l with
  | file m bytes | link m target =>
    cases l with
    | nil => simp
    | cons n l => cases he
  | directory m es distinct proper inside ih =>
    cases l with
    | nil => simp
    | cons n l =>
      rw [at?_cons] at he
      obtain ⟨d, hfind, hd⟩ := Option.bind_eq_some_iff.1 he
      obtain ⟨hmem, rfl⟩ := (find?_eq_some_iff distinct).1 hfind
      rw [List.forall_mem_cons]
      exact ⟨proper d hmem, ih d hmem hd⟩

end WellFormed

/-! ### The order of storage -/

/-- The same tree with the entries of its directories stored in another order. -/
inductive Reordered : Entry → Entry → Prop
  | refl (e : Entry) : Reordered e e
  | trans {e₁ e₂ e₃ : Entry} : Reordered e₁ e₂ → Reordered e₂ e₃ → Reordered e₁ e₃
  | here (n : Name) {es₁ es₂ : List Entry} : es₁.Perm es₂ →
      Reordered (.directory n es₁) (.directory n es₂)
  | inside (n : Name) (before after : List Entry) {e₁ e₂ : Entry} : Reordered e₁ e₂ →
      Reordered (.directory n (before ++ e₁ :: after)) (.directory n (before ++ e₂ :: after))

/-- An entry without what is inside. -/
def bare : Entry → Entry
  | directory n _ => directory n []
  | e => e

/-- The two trees have the same things at the same locations. -/
def SameContent (tree₁ tree₂ : Entry) : Prop :=
  ∀ l, (tree₁.at? l).map bare = (tree₂.at? l).map bare

namespace SameContent

variable {tree₁ tree₂ : Entry} {l : List Name}

lemma at?_directory (h : SameContent tree₁ tree₂) {n : Name} {es : List Entry}
    (hat : tree₁.at? l = some (directory n es)) : ∃ ds, tree₂.at? l = some (directory n ds) := by
  have hl := h l
  rw [hat] at hl
  obtain ⟨d, hd, hbare⟩ := Option.map_eq_some_iff.1 hl.symm
  cases d with
  | directory m ds =>
    cases hbare
    exact ⟨ds, hd⟩
  | file | link => cases hbare

lemma of_at (h : SameContent tree₁ tree₂) {e₁ e₂ : Entry} (h₁ : tree₁.at? l = some e₁)
    (h₂ : tree₂.at? l = some e₂) : SameContent e₁ e₂ := by
  intro ms
  rw [← at?_append h₁, ← at?_append h₂, h]

end SameContent

lemma Reordered.name_eq {e₁ e₂ : Entry} (h : Reordered e₁ e₂) : e₁.name = e₂.name := by
  induction h with
  | refl => rfl
  | trans _ _ ih₁ ih₂ => exact ih₁.trans ih₂
  | here => rfl
  | inside => rfl

lemma Reordered.wellFormed {e₁ e₂ : Entry} (h : Reordered e₁ e₂) (he : e₁.WellFormed) :
    e₂.WellFormed := by
  induction h with
  | refl => exact he
  | trans _ _ ih₁ ih₂ => exact ih₂ (ih₁ he)
  | here n hperm =>
    cases he with
    | directory _ _ distinct proper inside =>
      exact .directory n _ ((hperm.map name).nodup_iff.1 distinct)
        (fun e hes => proper e (hperm.mem_iff.2 hes)) fun e hes => inside e (hperm.mem_iff.2 hes)
  | @inside n before after e₁ e₂ h ih =>
    cases he with
    | directory _ _ distinct proper inside =>
      rw [List.forall_mem_append, List.forall_mem_cons] at proper inside
      refine .directory n _ (by simpa [← h.name_eq] using distinct) ?_ ?_
      · rw [List.forall_mem_append, List.forall_mem_cons, ← h.name_eq]
        exact proper
      · rw [List.forall_mem_append, List.forall_mem_cons]
        exact ⟨inside.1, ih inside.2.1, inside.2.2⟩

/-- In a well-formed tree the order of storage has no part in what is found. -/
lemma Reordered.sameContent {e₁ e₂ : Entry} (h : Reordered e₁ e₂) (he : e₁.WellFormed) :
    SameContent e₁ e₂ := by
  induction h with
  | refl => exact fun _ => rfl
  | trans h₁ _ ih₁ ih₂ => exact fun l => (ih₁ he l).trans (ih₂ (h₁.wellFormed he) l)
  | @here n es₁ es₂ hperm =>
    intro l
    cases l with
    | nil => rfl
    | cons m l =>
      cases he with
      | directory _ _ distinct _ _ =>
        have hfind : find? m es₁ = find? m es₂ := by
          refine Option.ext fun e => ?_
          rw [find?_eq_some_iff distinct, hperm.mem_iff,
            find?_eq_some_iff ((hperm.map name).nodup_iff.1 distinct)]
        rw [at?_cons, at?_cons, hfind]
  | @inside n before after e₁ e₂ h ih =>
    intro l
    cases l with
    | nil => rfl
    | cons m l =>
      cases he with
      | directory _ _ _ _ inside =>
        have hname := h.name_eq
        have hin := ih (inside e₁ (by simp)) l
        rw [at?_cons, at?_cons, find?, find?, List.find?_append, List.find?_append,
          List.find?_cons, List.find?_cons, ← hname]
        cases before.find? (·.name = m) with
        | some d => rfl
        | none =>
          split
          · exact hin
          · rfl

end SiteLint.Entry
