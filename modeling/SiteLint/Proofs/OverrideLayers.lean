import Mathlib.Data.List.Sort
import Mathlib.Data.String.Basic
import SiteLint.LinterConfig
import SiteLint.Proofs.PathText

/-!
Overrides in layers.

What a site says about a linter can be put together from several layers. Key by key the last layer
that says something counts, and merging the layers one after the other is merging what they say
together. A key that is given makes its field alone; one that is not leaves the field as it was.
-/

namespace SiteLint

namespace TextSet

lemma eq_of_mem_iff {s t : TextSet} (h : ∀ x, x ∈ s.texts ↔ x ∈ t.texts) : s = t := by
  obtain ⟨xs, hxs⟩ := s
  obtain ⟨ys, hys⟩ := t
  obtain rfl : xs = ys := hxs.eq_of_mem_iff hys h
  rfl

lemma ofList_eq_iff (xs : List String) (s : TextSet) :
    ofList xs = s ↔ ∀ x, x ∈ s.texts ↔ x ∈ xs := by
  refine ⟨?_, fun h => eq_of_mem_iff fun x => mem_ofList.trans (h x).symm⟩
  rintro rfl x
  exact mem_ofList

end TextSet

namespace Overrides

/-- What two layers say together: key by key the later one, or else the earlier one. -/
def followedBy (earlier later : Overrides) : Overrides where
  config := later.config.or earlier.config
  ignore := later.ignore.or earlier.ignore
  targets := later.targets.or earlier.targets
  extensions := later.extensions.or earlier.extensions

/-- What layers say together: for each key the last one that says something about it. -/
def together (layers : List Overrides) : Overrides where
  config := layers.reverse.findSome? (·.config)
  ignore := layers.reverse.findSome? (·.ignore)
  targets := layers.reverse.findSome? (·.targets)
  extensions := layers.reverse.findSome? (·.extensions)

lemma together_cons (o : Overrides) (layers : List Overrides) :
    together (o :: layers) = o.followedBy (together layers) := by
  simp [together, followedBy, List.findSome?_append]

end Overrides

/-- The path that a text stands for when it is seen from `root`. -/
inductive Path.SeenFrom (root : Path) (text : String) : Path → Prop
  /-- A text that starts with a slash stands for the same path everywhere. -/
  | absolute (h : text.toList.head? = some '/') : SeenFrom root text (.ofString text)
  /-- Any other text comes behind the root, with one slash between them. -/
  | behind {dir : List UInt8} (h : text.toList.head? ≠ some '/') (hroot : root.bytes ≠ [])
    (hdir : root.bytes = dir ++ [slash] ∨ root.bytes = dir ∧ dir.getLast? ≠ some slash) :
    SeenFrom root text ⟨dir ++ slash :: (Path.ofString text).bytes⟩
  /-- Nothing comes before a text that is seen from nowhere. -/
  | alone (hroot : root.bytes = []) : SeenFrom root text (.ofString text)

lemma Path.seenFrom_iff (root : Path) (text : String) (q : Path) :
    root.SeenFrom text q ↔ q = root.join (.ofString text) := by
  have habsolute := @isAbsolute_ofString text
  have halone (hroot : root.bytes = []) : root.join (.ofString text) = .ofString text := by
    simp [join, hroot]
  constructor
  · intro h
    cases h with
    | absolute h => rw [join, if_pos (habsolute.2 h)]
    | behind h hroot hdir =>
      rw [join, if_neg (mt habsolute.1 h)]
      rcases hdir with hdir | ⟨rfl, hslash⟩
      · simp [hdir]
      · simp [hroot, hslash]
    | alone hroot => exact (halone hroot).symm
  · rintro rfl
    by_cases h : text.toList.head? = some '/'
    · rw [join, if_pos (habsolute.2 h)]
      exact .absolute h
    by_cases hroot : root.bytes = []
    · rw [halone hroot]
      exact .alone hroot
    rw [join, if_neg (mt habsolute.1 h)]
    by_cases hslash : root.bytes.getLast? = some slash
    · obtain ⟨dir, hdir⟩ := List.getLast?_eq_some_iff.1 hslash
      have hbytes : root.bytes ++ (Path.ofString text).bytes =
          dir ++ slash :: (Path.ofString text).bytes := by
        simp [hdir]
      rw [if_pos (.inr hslash), hbytes]
      exact .behind h hroot (.inl hdir)
    · rw [if_neg (not_or.2 ⟨hroot, hslash⟩)]
      exact .behind h hroot (.inr ⟨rfl, hslash⟩)

namespace LinterConfig

/-- What a key makes of its field, which held `before`: a key that is given says alone what the
field holds, and one that is not leaves it. -/
inductive Field {α β : Type} (Says : α → β → Prop) (before : β) : Option α → β → Prop
  | kept : Field Says before none before
  | given {a : α} {b : β} (h : Says a b) : Field Says before (some a) b

lemma field_iff {α β : Type} {Says : α → β → Prop} {make : α → β} {before after : β}
    (hmake : ∀ a b, Says a b ↔ b = make a) {key : Option α} :
    Field Says before key after ↔ (key.map make).getD before = after := by
  cases key with
  | none =>
    refine ⟨fun h => ?_, fun h => ?_⟩
    · cases h
      rfl
    · obtain rfl : before = after := h
      exact .kept
  | some a =>
    refine ⟨fun h => ?_, fun h => .given ((hmake a after).2 h.symm)⟩
    cases h with
    | given h => exact ((hmake a after).1 h).symm

/-- What a site says about the ignore file; the empty text asks for none. -/
inductive IgnoreSays (root : Path) : String → Option Path → Prop
  | nothing : IgnoreSays root "" none
  | file {text : String} {q : Path} (h : text ≠ "") (hq : root.SeenFrom text q) :
    IgnoreSays root text (some q)

lemma ignoreSays_iff (root : Path) (text : String) (q? : Option Path) :
    IgnoreSays root text q? ↔ q? = if text = "" then none else some (root.join (.ofString text)) := by
  constructor
  · intro h
    cases h with
    | nothing => rfl
    | file h hq => rw [if_neg h, (Path.seenFrom_iff root text _).1 hq]
  · rintro rfl
    split
    · rename_i h
      exact h ▸ .nothing
    · rename_i h
      exact .file h ((Path.seenFrom_iff root text _).2 rfl)

/-- The set-up `c'` is what the overrides make of `c` in a project at `root`. -/
structure Overridden (root : Path) (o : Overrides) (c c' : LinterConfig) : Prop where
  config : Field root.SeenFrom c.configPath o.config c'.configPath
  ignore : Field (IgnoreSays root) c.ignorePath o.ignore c'.ignorePath
  /-- A list takes the place of the list that was there. -/
  targets : Field (fun ts ts' => ts' = ts) c.targets o.targets c'.targets
  /-- Neither the order nor the repetition of extensions counts. -/
  extensions : Field (fun es s => ∀ x, x ∈ s.texts ↔ x ∈ es) c.extensions o.extensions c'.extensions

lemma overridden_iff {root : Path} {o : Overrides} {c c' : LinterConfig} :
    Overridden root o c c' ↔ c.merge o root = c' := by
  have hconfig : Field root.SeenFrom c.configPath o.config c'.configPath ↔
      (c.merge o root).configPath = c'.configPath :=
    field_iff (Path.seenFrom_iff root)
  have hignore : Field (IgnoreSays root) c.ignorePath o.ignore c'.ignorePath ↔
      (c.merge o root).ignorePath = c'.ignorePath := by
    rw [field_iff (ignoreSays_iff root)]
    cases h : o.ignore <;> simp [merge, h]
  have htargets : Field (fun ts ts' => ts' = ts) c.targets o.targets c'.targets ↔
      (c.merge o root).targets = c'.targets := by
    rw [field_iff fun _ _ => Iff.rfl, Option.map_id', merge]
  have hextensions : Field (fun es s => ∀ x, x ∈ s.texts ↔ x ∈ es) c.extensions o.extensions
      c'.extensions ↔ (c.merge o root).extensions = c'.extensions :=
    field_iff fun es s => (TextSet.ofList_eq_iff es s).symm.trans eq_comm
  refine ⟨fun ⟨h₁, h₂, h₃, h₄⟩ => ?_, ?_⟩
  · obtain ⟨p, q?, ts, es⟩ := c'
    obtain rfl : (c.merge o root).configPath = p := hconfig.1 h₁
    obtain rfl : (c.merge o root).ignorePath = q? := hignore.1 h₂
    obtain rfl : (c.merge o root).targets = ts := htargets.1 h₃
    obtain rfl : (c.merge o root).extensions = es := hextensions.1 h₄
    rfl
  · rintro rfl
    exact ⟨hconfig.2 rfl, hignore.2 rfl, htargets.2 rfl, hextensions.2 rfl⟩

@[simp] lemma merge_none (c : LinterConfig) (root : Path) : c.merge .none root = c := rfl

/-- **Two layers.** What is said later counts before what was said earlier. -/
lemma merge_merge (c : LinterConfig) (o₁ o₂ : Overrides) (root : Path) :
    (c.merge o₁ root).merge o₂ root = c.merge (o₁.followedBy o₂) root := by
  obtain ⟨config, ignore, targets, extensions⟩ := o₂
  cases config <;> cases ignore <;> cases targets <;> cases extensions <;> rfl

lemma foldl_merge (c : LinterConfig) (layers : List Overrides) (root : Path) :
    layers.foldl (fun c o => c.merge o root) c = c.merge (.together layers) root := by
  induction layers generalizing c with
  | nil => rfl
  | cons o layers ih => rw [List.foldl_cons, ih, merge_merge, Overrides.together_cons]

/-- **Merging in layers.** Merging layers one after the other is merging what they say together,
with the last layer that gives a key deciding about it, and an empty layer says nothing. What one
layer makes of a set-up is told field by field; of the extensions only the set counts. -/
theorem merge_in_layers (c : LinterConfig) (o₁ o₂ : Overrides) (root : Path) :
    (c.merge o₁ root).merge o₂ root = c.merge (o₁.followedBy o₂) root ∧
    (∀ layers : List Overrides,
      layers.foldl (fun c o => c.merge o root) c = c.merge (.together layers) root) ∧
    c.merge .none root = c ∧ (c.merge o₁ root).merge o₁ root = c.merge o₁ root ∧
    (∀ c', c.merge o₁ root = c' ↔ Overridden root o₁ c c') ∧
    ∀ es es', c.merge { o₁ with extensions := some es } root =
      c.merge { o₁ with extensions := some es' } root ↔ ∀ x, x ∈ es ↔ x ∈ es' := by
  refine ⟨merge_merge c o₁ o₂ root, fun layers => foldl_merge c layers root, merge_none c root, ?_,
    fun c' => overridden_iff.symm, fun es es' => ?_⟩
  · rw [merge_merge]
    simp [Overrides.followedBy]
  · have hsets : TextSet.ofList es = TextSet.ofList es' ↔ ∀ x, x ∈ es ↔ x ∈ es' := by
      simp only [TextSet.ofList_eq_iff, TextSet.mem_ofList, iff_comm]
    rw [← hsets]
    simp [merge]

end LinterConfig

end SiteLint
