import SiteLint.Proofs.TextBytes
import SiteLint.Proofs.TextCut

/-!
What filters leave of the output of a tool.

Each filter cuts at the first place of its marker, and a text that a filter leaves as it is stays so
when more of it is cut off at the end. So no filter finds its marker again behind the others, even
where markers overlap. The first place in the text is the first one in its bytes.
-/

namespace SiteLint

/-! ### The first place of a marker -/

namespace Text

/-- What stands in front of the first place of a marker. -/
structure InFront {α : Type} (marker whole before : List α) : Prop where
  there : before ++ marker <+: whole
  first : ∀ p, p ++ marker <+: whole → before <+: p

namespace InFront

variable {α : Type} {marker whole before : List α}

lemma of_empty (h : InFront [] whole before) : before = [] :=
  List.prefix_nil.1 (h.first [] List.nil_prefix)

lemma not_infix (h : InFront marker whole before) (hmarker : marker ≠ []) :
    ¬ marker <:+: before := by
  rintro ⟨p, after, hsplit⟩
  have hplace : p ++ marker <+: before := ⟨after, hsplit⟩
  have hbefore : before <+: p := h.first p (hplace.trans ((List.prefix_append _ _).trans h.there))
  have hpos := List.length_pos_iff.2 hmarker
  have hlength := hplace.length_le.trans hbefore.length_le
  rw [List.length_append] at hlength
  omega

lemma eq_nil_or_not_infix (h : InFront marker whole before) :
    before = [] ∨ ¬ marker <:+: before := by
  by_cases hmarker : marker = []
  · exact .inl (hmarker ▸ h).of_empty
  · exact .inr (h.not_infix hmarker)

lemma of_prefix {whole' : List α} (h : InFront marker whole before) (hwhole : whole <+: whole') :
    InFront marker whole' before := by
  have hthere := h.there.trans hwhole
  refine ⟨hthere, fun p hp => ?_⟩
  rcases Nat.lt_or_ge p.length before.length with hlt | hle
  · have hinside : p ++ marker <+: before ++ marker := by
      refine List.prefix_of_prefix_length_le hp hthere ?_
      rw [List.length_append, List.length_append]
      omega
    exact h.first p (hinside.trans h.there)
  · exact List.prefix_of_prefix_length_le ((List.prefix_append _ _).trans hthere)
      ((List.prefix_append _ _).trans hp) hle

end InFront

lemma inFront_of_breakAt {marker cs before after : List Char}
    (h : breakAt marker cs = some (before, after)) : InFront marker cs before := by
  refine ⟨⟨after, (breakAt_eq h).symm⟩, fun p hp => ?_⟩
  induction before generalizing cs p with
  | nil => exact List.nil_prefix
  | cons c before ih =>
    obtain ⟨cs, rfl⟩ : ∃ cs', cs = c :: cs' := ⟨_, breakAt_eq h⟩
    obtain ⟨hnot, hlater⟩ := breakAt_cons h
    cases p with
    | nil => exact absurd hp hnot
    | cons d p =>
      obtain ⟨rfl, hplace⟩ := List.cons_prefix_cons.1 hp
      exact List.cons_prefix_cons.2 ⟨rfl, ih hlater p hplace⟩

lemma InFront.stored {marker text before : String}
    (h : InFront marker.toList text.toList before.toList) :
    InFront (Utf8.stored marker) (Utf8.stored text) (Utf8.stored before) := by
  simp only [Utf8.stored_eq]
  by_cases hmarker : marker.toList = []
  · rw [hmarker] at h ⊢
    rw [h.of_empty]
    exact ⟨List.nil_prefix, fun p _ => List.nil_prefix⟩
  · refine ⟨?_, fun p hp => ?_⟩
    · rw [← Utf8.encode_append]
      exact h.there.flatMap _
    · obtain ⟨q, rfl, hq⟩ := Utf8.exists_place hmarker hp
      exact (h.first q hq).flatMap _

end Text

namespace OutputFilter

open Text Utf8

/-- The text that a filter looks for. -/
def marker : OutputFilter → String
  | truncateAt marker => marker

/-! ### One filter -/

variable {f : OutputFilter} {fs : List OutputFilter} {cs ds : List Char}

lemma apply_cases (f : OutputFilter) (cs : List Char) :
    ¬ f.marker.toList <:+: cs ∧ f.apply cs = cs ∨ InFront f.marker.toList cs (f.apply cs) := by
  obtain ⟨marker⟩ := f
  cases hbreak : breakAt marker.toList cs with
  | none => exact .inl ⟨breakAt_eq_none_iff.1 hbreak, by simp [apply, hbreak]⟩
  | some parts =>
    have hkept : (truncateAt marker).apply cs = parts.1 := by simp [apply, hbreak]
    exact .inr (hkept ▸ inFront_of_breakAt hbreak)

lemma apply_eq_self_iff : f.apply cs = cs ↔ cs = [] ∨ ¬ f.marker.toList <:+: cs := by
  rcases apply_cases f cs with ⟨hnot, hsame⟩ | hfront
  · exact iff_of_true hsame (.inr hnot)
  · constructor
    · intro hsame
      rw [hsame] at hfront
      exact hfront.eq_nil_or_not_infix
    · rintro (rfl | hnot)
      · exact List.prefix_nil.1 (f.apply_prefix [])
      · exact absurd ((List.suffix_append _ _).isInfix.trans hfront.there.isInfix) hnot

lemma apply_apply (f : OutputFilter) (cs : List Char) : f.apply (f.apply cs) = f.apply cs := by
  rcases apply_cases f cs with ⟨-, hsame⟩ | hfront
  · rw [hsame, hsame]
  · exact apply_eq_self_iff.2 hfront.eq_nil_or_not_infix

lemma apply_eq_self_of_prefix (h : f.apply cs = cs) (hds : ds <+: cs) : f.apply ds = ds := by
  rw [apply_eq_self_iff] at h ⊢
  rcases h with rfl | hnot
  · exact .inl (List.prefix_nil.1 hds)
  · exact .inr fun hthere => hnot (hthere.trans hds.isInfix)

/-! ### Filters one after the other -/

@[simp] lemma applyAll_nil (cs : List Char) : applyAll [] cs = cs := rfl

@[simp] lemma applyAll_cons (f : OutputFilter) (fs : List OutputFilter) (cs : List Char) :
    applyAll (f :: fs) cs = applyAll fs (f.apply cs) := rfl

lemma applyAll_append (fs gs : List OutputFilter) (cs : List Char) :
    applyAll (fs ++ gs) cs = applyAll gs (applyAll fs cs) :=
  List.foldl_append

lemma applyAll_eq_self (h : ∀ f ∈ fs, f.apply cs = cs) : applyAll fs cs = cs := by
  induction fs with
  | nil => rfl
  | cons f fs ih =>
    rw [applyAll_cons, h f List.mem_cons_self]
    exact ih fun g hg => h g (List.mem_cons_of_mem f hg)

lemma apply_applyAll (hf : f ∈ fs) (cs : List Char) :
    f.apply (applyAll fs cs) = applyAll fs cs := by
  induction fs generalizing cs with
  | nil => exact absurd hf List.not_mem_nil
  | cons g fs ih =>
    rcases List.mem_cons.1 hf with rfl | hf
    · have hshort := applyAll_prefix fs (f.apply cs)
      exact apply_eq_self_of_prefix (apply_apply f cs) hshort
    · exact ih hf (g.apply cs)

lemma applyAll_cases (fs : List OutputFilter) (cs : List Char) :
    applyAll fs cs = cs ∨ ∃ f ∈ fs, InFront f.marker.toList cs (applyAll fs cs) := by
  induction fs generalizing cs with
  | nil => exact .inl rfl
  | cons f fs ih =>
    rw [applyAll_cons]
    rcases ih (f.apply cs) with hsame | ⟨g, hg, hfront⟩
    · rw [hsame]
      rcases apply_cases f cs with ⟨-, hkept⟩ | hfront
      · exact .inl hkept
      · exact .inr ⟨f, List.mem_cons_self, hfront⟩
    · exact .inr ⟨g, List.mem_cons_of_mem f hg, hfront.of_prefix (f.apply_prefix cs)⟩

/-- **Filtered output.** What is left is the output up to the first place in its bytes of one of the
markers, which is between two characters, or all of it. No marker is left, so that the same filters
change it no further, and an output without the markers is left as it is. Of two lists of filters,
the second is applied to what the first has left. -/
theorem output_cut_at_markers (fs : List OutputFilter) (printed : String) :
    ∃ kept rest : String, applyAll fs printed.toList = kept.toList ∧ printed = kept ++ rest ∧
      (rest = "" ∨ ∃ f ∈ fs, InFront (stored f.marker) (stored printed) (stored kept)) ∧
      (∀ f ∈ fs, f.marker ≠ "" → ¬ stored f.marker <:+: stored kept) ∧
      applyAll fs kept.toList = kept.toList ∧
      ((∀ f ∈ fs, ¬ stored f.marker <:+: stored printed) → kept = printed) ∧
      ∀ gs, applyAll (fs ++ gs) printed.toList = applyAll gs kept.toList := by
  obtain ⟨rest, hrest⟩ := applyAll_prefix fs printed.toList
  refine ⟨String.ofList (applyAll fs printed.toList), String.ofList rest,
    String.toList_ofList.symm, ?_⟩
  simp only [infix_stored_iff, String.toList_ofList]
  refine ⟨?_, ?_, fun f hf hmarker => ?_, ?_, fun hnone => ?_, fun gs => ?_⟩
  · rw [← String.ofList_append, hrest, String.ofList_toList]
  · rcases applyAll_cases fs printed.toList with hsame | ⟨f, hf, hfront⟩
    · exact .inl (by simpa [hsame] using hrest)
    · exact .inr ⟨f, hf, InFront.stored (by rwa [String.toList_ofList])⟩
  · rcases apply_eq_self_iff.1 (apply_applyAll hf printed.toList) with hempty | hnot
    · rw [hempty, List.infix_nil, String.toList_eq_nil_iff]
      exact hmarker
    · exact hnot
  · exact applyAll_eq_self fun f hf => apply_applyAll hf printed.toList
  · rw [applyAll_eq_self fun f hf => apply_eq_self_iff.2 (.inr (hnone f hf)),
      String.ofList_toList]
  · exact applyAll_append fs gs printed.toList

/-- Two markers that overlap in the output. The first cut goes through the second marker, which is
then not found; in the other order more is cut off. -/
theorem output_cut_at_overlapping_markers :
    let fs : List OutputFilter := [.truncateAt "→b", .truncateAt "é→"]
    (∀ f ∈ fs, f.marker ≠ "") ∧ applyAll fs "aé→b".toList = "aé".toList ∧
      (∃ f ∈ fs, InFront (stored f.marker) (stored "aé→b") (stored "aé")) ∧
      (∀ f ∈ fs, ¬ stored f.marker <:+: stored "aé") ∧
      applyAll fs "aé".toList = "aé".toList ∧
      applyAll fs.reverse "aé→b".toList = "a".toList := by
  intro fs
  have hmarkers : ∀ f ∈ fs, f.marker ≠ "" := by decide
  have hcut : applyAll fs "aé→b".toList = "aé".toList := by decide
  obtain ⟨kept, rest, hkept, hsplit, hplace, hleft, -⟩ := output_cut_at_markers fs "aé→b"
  obtain rfl : kept = "aé" := String.toList_inj.1 (hkept.symm.trans hcut)
  have hrest : rest ≠ "" := by
    rintro rfl
    exact absurd hsplit (by decide)
  have hnone : ∀ f ∈ fs, ¬ stored f.marker <:+: stored "aé" :=
    fun f hf => hleft f hf (hmarkers f hf)
  obtain ⟨kept, -, hkept, -, -, -, -, hsame, -⟩ := output_cut_at_markers fs "aé"
  rw [hsame hnone] at hkept
  exact ⟨hmarkers, hcut, hplace.resolve_left hrest, hnone, hkept, by decide⟩

end OutputFilter

end SiteLint
