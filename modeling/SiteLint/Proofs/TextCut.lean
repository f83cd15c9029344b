import Mathlib.Data.List.Infix
import Mathlib.Data.List.TakeWhile
import SiteLint.OutputFilter
import SiteLint.Text.Blank

/-!
Texts cut at their ends and at a marker.

Cutting at a marker keeps what stands before its first place. A marker that does not overlap with
itself cannot begin in a text without it and end behind that text, so that its first place behind
such a text is where it was put.
-/

namespace SiteLint

namespace Text

/-! ### Blank characters at the ends -/

lemma trim_of_blank {cs : List Char} (h : isBlankText cs = true) : trim cs = [] := by
  have hall : ∀ c ∈ cs, isBlank c = true := by simpa [isBlankText] using h
  have hstart : trimStart cs = [] := List.dropWhile_eq_nil_iff.2 hall
  rw [trim, hstart]
  rfl

lemma blank_of_prefix {cs ds : List Char} (h : cs <+: ds)
    (hd : isBlankText ds = true) : isBlankText cs = true := by
  simp only [isBlankText, List.all_eq_true] at hd ⊢
  exact fun c hc => hd c (h.subset hc)

lemma exists_blank_trimEnd (cs : List Char) :
    ∃ w, isBlankText w = true ∧ cs = trimEnd cs ++ w := by
  refine ⟨(cs.reverse.takeWhile isBlank).reverse, ?_, ?_⟩
  · simp only [isBlankText, List.all_reverse, List.all_eq_true]
    exact fun c hc => List.mem_takeWhile_imp hc
  · rw [trimEnd, ← List.reverse_append, List.takeWhile_append_dropWhile, List.reverse_reverse]

lemma trimEnd_append_cons (cs ds : List Char) {c : Char} (hc : isBlank c = false) :
    trimEnd (cs ++ c :: ds) = cs ++ c :: trimEnd ds := by
  have hdrop (l : List Char) : (l ++ c :: cs.reverse).dropWhile isBlank =
      l.dropWhile isBlank ++ c :: cs.reverse := by
    induction l with
    | nil => simp [hc]
    | cons b l ih => by_cases hb : isBlank b = true <;> simp [hb, ih]
  simp [trimEnd, hdrop]

lemma trimStart_append {cs : List Char} (h : isBlankText cs = false) (ds : List Char) :
    trimStart (cs ++ ds) = trimStart cs ++ ds := by
  induction cs with
  | nil => simp [isBlankText] at h
  | cons c cs ih =>
    by_cases hc : isBlank c = true
    · have hcs : isBlankText cs = false := by simpa [isBlankText, hc] using h
      simpa [trimStart, hc] using ih hcs
    · simp [trimStart, hc]

lemma trimStart_blank {cs : List Char} (h : isBlankText cs = true) {c : Char}
    (hc : isBlank c = false) (ds : List Char) : trimStart (cs ++ c :: ds) = c :: ds := by
  have hall : ∀ b ∈ cs, isBlank b = true := by simpa [isBlankText] using h
  rw [trimStart, List.dropWhile_append_of_pos hall]
  simp [hc]

lemma trim_append_cons (cs ds : List Char) {c : Char} (hc : isBlank c = false) :
    ∃ w, isBlankText w = true ∧ trim (cs ++ c :: ds) = trim cs ++ (w ++ c :: trimEnd ds) := by
  by_cases hcs : isBlankText cs = true
  · refine ⟨[], rfl, ?_⟩
    rw [trim, trimStart_blank hcs hc, trim_of_blank hcs]
    simpa using trimEnd_append_cons [] ds hc
  · obtain ⟨w, hw, hsplit⟩ := exists_blank_trimEnd (trimStart cs)
    refine ⟨w, hw, ?_⟩
    rw [trim, trimStart_append (by simpa using hcs), trimEnd_append_cons _ _ hc]
    rw [← List.append_assoc, trim, ← hsplit]

lemma dropWhile_isBlank {cs : List Char} (h : ∀ c ∈ cs.head?, isBlank c = false) :
    cs.dropWhile isBlank = cs := by
  cases cs with
  | nil => rfl
  | cons c cs => simp [h c rfl]

lemma trim_eq_self {cs : List Char} (hstart : ∀ c ∈ cs.head?, isBlank c = false)
    (hend : ∀ c ∈ cs.getLast?, isBlank c = false) : trim cs = cs := by
  rw [trim, trimStart, dropWhile_isBlank hstart, trimEnd, dropWhile_isBlank (by simpa using hend),
    List.reverse_reverse]

lemma trim_padded {indent cs padding : List Char} (hindent : isBlankText indent = true)
    (hpadding : isBlankText padding = true) : trim (indent ++ cs ++ padding) = trim cs := by
  have hstart : ∀ c ∈ indent, isBlank c = true := by simpa [isBlankText] using hindent
  have hend : ∀ c ∈ padding.reverse, isBlank c = true := by simpa [isBlankText] using hpadding
  have htrimEnd (ds : List Char) : trimEnd (ds ++ padding) = trimEnd ds := by
    rw [trimEnd, trimEnd, List.reverse_append, List.dropWhile_append_of_pos hend]
  rw [List.append_assoc, trim, trimStart, List.dropWhile_append_of_pos hstart]
  by_cases hcs : isBlankText cs = true
  · have hall : isBlankText (cs ++ padding) = true := by
      simpa [isBlankText] using ⟨by simpa [isBlankText] using hcs, by simpa using hend⟩
    exact (trim_of_blank hall).trans (trim_of_blank hcs).symm
  · rw [← trimStart, trimStart_append (by simpa using hcs), htrimEnd]
    rfl

lemma exists_padded_trim (cs : List Char) :
    ∃ indent padding, isBlankText indent = true ∧ isBlankText padding = true ∧
      cs = indent ++ trim cs ++ padding := by
  obtain ⟨padding, hpadding, hsplit⟩ := exists_blank_trimEnd (trimStart cs)
  refine ⟨cs.takeWhile isBlank, padding, ?_, hpadding, ?_⟩
  · exact List.all_eq_true.2 fun c hc => List.mem_takeWhile_imp hc
  · rw [List.append_assoc, trim, ← hsplit, trimStart, List.takeWhile_append_dropWhile]

lemma trim_between {before inner after : List Char} {c d : Char} (hc : isBlank c = false)
    (hd : isBlank d = false) (hbefore : isBlankText before = true)
    (hafter : isBlankText after = true) :
    trim (before ++ c :: (inner ++ d :: after)) = c :: (inner ++ [d]) := by
  have hsplit : before ++ c :: (inner ++ d :: after) = before ++ c :: (inner ++ [d]) ++ after := by
    simp
  have hlast : (c :: (inner ++ [d])).getLast? = some d := by
    rw [← List.cons_append, List.getLast?_concat]
  rw [hsplit, trim_padded hbefore hafter]
  exact trim_eq_self (by simpa using hc) (by simpa [hlast] using hd)

lemma trim_eq_nil_iff {cs : List Char} : trim cs = [] ↔ isBlankText cs = true := by
  refine ⟨fun h => ?_, trim_of_blank⟩
  obtain ⟨indent, padding, hindent, hpadding, hcs⟩ := exists_padded_trim cs
  rw [hcs, h, List.append_nil, isBlankText, List.all_append, Bool.and_eq_true]
  exact ⟨hindent, hpadding⟩

lemma trim_subset (cs : List Char) : trim cs ⊆ cs := by
  intro c hc
  have hdrop := List.dropWhile_subset _ (List.mem_reverse.1 hc)
  exact List.dropWhile_subset _ (List.mem_reverse.1 hdrop)

lemma not_isBlank_of_head_trim {cs : List Char} {c : Char} (h : (trim cs).head? = some c) :
    isBlank c = false := by
  obtain ⟨w, -, hsplit⟩ := exists_blank_trimEnd (trimStart cs)
  obtain ⟨ds, hds⟩ := List.head?_eq_some_iff.1 h
  rw [← trim, hds, trimStart] at hsplit
  have hhead := List.head?_dropWhile_not isBlank cs
  rw [hsplit] at hhead
  simpa using hhead

lemma not_isBlank_of_trim {c : Char} {cs : List Char} (h : trim (c :: cs) = c :: cs) :
    isBlank c = false :=
  not_isBlank_of_head_trim (congrArg List.head? h)

lemma not_isBlank_of_getLast_trim {cs : List Char} {c : Char} (h : (trim cs).getLast? = some c) :
    isBlank c = false := by
  rw [trim, trimEnd, List.getLast?_reverse] at h
  have hhead := List.head?_dropWhile_not isBlank (trimStart cs).reverse
  rw [h] at hhead
  simpa using hhead

/-! ### Lines -/

lemma notMem_of_mem_lines {cs l : List Char} (h : l ∈ lines cs) : '\n' ∉ l := by
  fun_induction lines cs generalizing l with
  | case1 => cases h
  | case2 cs ih | case3 cs ih =>
    rcases List.mem_cons.1 h with rfl | h
    · exact List.not_mem_nil
    · exact ih h
  | case4 c cs hfeed _ hlines ih =>
    obtain rfl := List.mem_singleton.1 h
    simpa [eq_comm] using hfeed
  | case5 c cs hfeed _ first later hlines ih =>
    rw [hlines] at ih
    rcases List.mem_cons.1 h with rfl | h
    · rw [List.mem_cons, not_or]
      exact ⟨fun hc => hfeed hc.symm, ih List.mem_cons_self⟩
    · exact ih (List.mem_cons_of_mem _ h)

/-! ### The first place of a marker -/

lemma breakAt_eq {marker cs before after : List Char}
    (h : breakAt marker cs = some (before, after)) : cs = before ++ marker ++ after := by
  induction cs generalizing before with
  | nil =>
    unfold breakAt at h
    split at h
    · have hm : marker = [] := by simpa using ‹marker.isEmpty = true›
      simp_all
    · simp at h
  | cons c cs ih =>
    unfold breakAt at h
    split at h
    · rename_i hp
      obtain ⟨rest, hrest⟩ := List.isPrefixOf_iff_prefix.1 hp
      obtain ⟨rfl, rfl⟩ : [] = before ∧ (c :: cs).drop marker.length = after := by simpa using h
      rw [← hrest]
      simp
    · obtain ⟨⟨b, a⟩, hb, hc⟩ := Option.map_eq_some_iff.1 h
      obtain ⟨rfl, rfl⟩ : c :: b = before ∧ a = after := by simpa using hc
      rw [ih hb]
      simp

lemma breakAt_cons {marker cs before after : List Char} {c : Char}
    (h : breakAt marker (c :: cs) = some (c :: before, after)) :
    ¬ marker <+: c :: cs ∧ breakAt marker cs = some (before, after) := by
  rw [breakAt] at h
  split at h
  · simp at h
  · rename_i hnot
    obtain ⟨⟨before', after'⟩, hbreak, heq⟩ := Option.map_eq_some_iff.1 h
    cases heq
    exact ⟨fun hprefix => hnot (List.isPrefixOf_iff_prefix.2 hprefix), hbreak⟩

lemma breakAt_eq_none_iff {marker cs : List Char} :
    breakAt marker cs = none ↔ ¬ marker <:+: cs := by
  induction cs with
  | nil => simp [breakAt]
  | cons c cs ih =>
    rw [breakAt, List.infix_cons_iff, not_or, ← ih]
    split
    · rename_i hp
      simp [List.isPrefixOf_iff_prefix.1 hp]
    · rename_i hp
      have hp' : ¬ marker <+: c :: cs := fun h => hp (List.isPrefixOf_iff_prefix.2 h)
      simp [hp']

/-- No end of the marker is a beginning of it, but for the marker itself. -/
def Unbordered (marker : List Char) : Prop :=
  ∀ k < marker.length, 0 < k → ¬ marker.drop k <+: marker

instance (marker : List Char) : Decidable (Unbordered marker) :=
  inferInstanceAs (Decidable (∀ k < marker.length, 0 < k → ¬ marker.drop k <+: marker))

/-- **First place.** Behind a text without the marker, the marker is found where it was put. -/
lemma breakAt_append {marker cs : List Char} (hm : Unbordered marker) (h : ¬ marker <:+: cs)
    (tail : List Char) : breakAt marker (cs ++ marker ++ tail) = some (cs, tail) := by
  induction cs with
  | nil =>
    cases marker with
    | nil => exact absurd (List.infix_refl []) h
    | cons c marker => simp [breakAt]
  | cons c cs ih =>
    have hrest : ¬ marker <:+: cs := fun hcs => h (List.infix_cons hcs)
    have hp : ¬ marker <+: c :: cs ++ (marker ++ tail) := by
      intro hp
      rcases Nat.lt_or_ge (c :: cs).length marker.length with hlt | hle
      · -- the marker would overlap with itself
        have hstart : c :: cs <+: marker :=
          List.prefix_of_prefix_length_le (List.prefix_append _ _) hp hlt.le
        obtain ⟨e, rfl⟩ := hstart
        have he : e <+: c :: cs ++ e := by
          have hend : e <+: c :: cs ++ e ++ tail := (List.prefix_append_right_inj _).1 hp
          exact List.prefix_of_prefix_length_le hend (List.prefix_append _ _) (by simp; omega)
        exact hm (c :: cs).length hlt (by simp) (by simpa using he)
      · exact h (List.prefix_of_prefix_length_le hp (List.prefix_append _ _) hle).isInfix
    have hp' : ¬ marker.isPrefixOf (c :: (cs ++ marker ++ tail)) = true := by
      simpa [List.isPrefixOf_iff_prefix] using hp
    rw [List.cons_append, List.cons_append, breakAt, if_neg hp', ih hrest]
    rfl

end Text

/-! ### Filters -/

lemma OutputFilter.apply_prefix (f : OutputFilter) (cs : List Char) : f.apply cs <+: cs := by
  obtain ⟨marker⟩ := f
  rcases h : Text.breakAt marker.toList cs with _ | ⟨before, after⟩
  · simp [apply, h]
  · simp only [apply, h]
    exact ⟨marker.toList ++ after, by rw [Text.breakAt_eq h, List.append_assoc]⟩

lemma OutputFilter.applyAll_prefix (fs : List OutputFilter) (cs : List Char) :
    OutputFilter.applyAll fs cs <+: cs := by
  induction fs generalizing cs with
  | nil => exact List.prefix_refl _
  | cons f fs ih => exact (ih (f.apply cs)).trans (f.apply_prefix cs)

end SiteLint
