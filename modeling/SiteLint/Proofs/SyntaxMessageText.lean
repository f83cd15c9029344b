import SiteLint.Proofs.ReportRules
import SiteLint.Proofs.SyntaxMessage

/-!
What is shown of a failing syntax check.

The message is one line without blanks around it. It says something unless the first error that PHP
tells has no text of its own: where nothing but blanks stands between its announcement and its file,
one of the blanks is taken for the text, and trimming takes it away again.
-/

namespace SiteLint.PhpSyntax

/-- At least one character, and none that ends a line. -/
structure OnLine (cs : List Char) : Prop where
  nonempty : cs ≠ []
  line : '\n' ∉ cs

/-- Blanks up to the end of a line. -/
inductive EndsLine : List Char → Prop
  | last {blanks : List Char} (h : Text.isBlankText blanks = true) : EndsLine blanks
  | line {blanks : List Char} (h : Text.isBlankText blanks = true) (later : List Char) :
    EndsLine (blanks ++ '\n' :: later)

/-- The text starts with a file and a place in it, at the end of a line. -/
inductive StartsWithPlace : List Char → Prop
  | place {file digits rest : List Char} (hfile : OnLine file) (hdigits : digits ≠ [])
    (hdecimal : ∀ c ∈ digits, Text.isDecimal c = true) (hend : EndsLine rest) :
    StartsWithPlace (file ++ (" on line ".toList ++ (digits ++ rest)))

/-- The ways to take apart an error that PHP tells at the start of a text, each with what it makes
the error's text: blanks behind the announcement can be left out of it or count among it. -/
inductive Tells : List Char → List Char → Prop
  | error {announcement : String} {blanks text after : List Char}
    (hannouncement : announcement ∈ announcements) (hblanks : Text.isBlankText blanks = true)
    (htext : OnLine text) (hafter : StartsWithPlace after) :
    Tells (announcement.toList ++ (blanks ++ (text ++ (" in ".toList ++ after)))) text

/-- What follows stands at the start of a line. -/
def EndsAtLine (before : List Char) : Prop := before = [] ∨ before.getLast? = some '\n'

/-- What is printed from the first line on that tells an error. -/
structure FirstTold (printed told : List Char) : Prop where
  tells : ∃ text, Tells told text
  line : ∃ before, printed = before ++ told ∧ EndsAtLine before ∧
    ∀ earlier later, before = earlier ++ later → later ≠ [] → EndsAtLine earlier →
      ∀ text, ¬ Tells (later ++ told) text

/-- However the first error that PHP tells is taken apart, its text is blank. -/
def IsTextless (printed : List Char) : Prop :=
  ∃ told, FirstTold printed told ∧ ∀ text, Tells told text → Text.isBlankText text = true

/-! ### The place -/

lemma not_isDecimal_of_isBlank {c : Char} (h : Text.isBlank c = true) :
    Text.isDecimal c = false := by
  have hapart : ∀ r ∈ Text.blankRanges, ∀ s ∈ Text.decimalRanges, r.2 < s.1 ∨ s.2 < r.1 := by
    decide
  rw [Text.isBlank, Text.inRanges, List.any_eq_true] at h
  obtain ⟨r, hr, hin⟩ := h
  rw [Text.isDecimal, Text.inRanges, List.any_eq_false]
  intro s hs
  have := hapart r hr s hs
  simp only [Bool.and_eq_true, decide_eq_true_eq] at hin ⊢
  omega

lemma endsLine_iff {rest : List Char} :
    EndsLine rest ↔ Text.isBlankText (rest.takeWhile (· ≠ '\n')) = true := by
  constructor
  · rintro (h | ⟨h, later⟩)
    · exact Text.blank_of_prefix (List.takeWhile_prefix _) h
    · rename_i blanks
      refine Text.blank_of_prefix ?_ h
      by_cases hline : '\n' ∈ blanks
      · obtain ⟨before, after, rfl, hbefore⟩ := List.eq_append_cons_of_mem hline
        rw [List.append_assoc, List.cons_append, takeWhile_line hbefore]
        exact List.prefix_append _ _
      · rw [takeWhile_line hline]
  · intro h
    rw [← List.takeWhile_append_dropWhile (p := (· ≠ '\n')) (l := rest)]
    cases hdrop : rest.dropWhile (· ≠ '\n') with
    | nil =>
      rw [List.append_nil]
      exact .last h
    | cons c later =>
      have hhead := List.head?_dropWhile_not (· ≠ '\n') rest
      rw [hdrop] at hhead
      obtain rfl : c = '\n' := by simpa using hhead
      exact .line h later

lemma EndsLine.not_isDecimal {rest : List Char} (h : EndsLine rest) :
    ∀ c ∈ rest.head?, Text.isDecimal c = false := by
  have hfeed : Text.isDecimal '\n' = false := by decide
  have hblank {blanks : List Char} (hb : Text.isBlankText blanks = true) :
      ∀ c ∈ blanks.head?, Text.isDecimal c = false := fun c hc =>
    not_isDecimal_of_isBlank (List.all_eq_true.1 hb c (List.mem_of_head? hc))
  rcases h with h | ⟨h, later⟩
  · exact hblank h
  · rename_i blanks
    cases blanks with
    | nil => simpa using hfeed
    | cons b blanks => simpa using hblank h

lemma isSome_lineNumber_iff {cs : List Char} :
    (lineNumber? cs).isSome = true ↔
      ∃ digits rest, cs = digits ++ rest ∧ digits ≠ [] ∧
        (∀ c ∈ digits, Text.isDecimal c = true) ∧ EndsLine rest := by
  constructor
  · intro h
    refine ⟨cs.takeWhile Text.isDecimal, cs.dropWhile Text.isDecimal,
      List.takeWhile_append_dropWhile.symm, ?_⟩
    simp only [lineNumber?] at h
    split at h
    · cases h
    · rename_i hcond
      simp only [Bool.or_eq_true, not_or, List.isEmpty_iff, Bool.not_eq_true',
        Bool.not_eq_false] at hcond
      exact ⟨hcond.1, fun c hc => List.mem_takeWhile_imp hc, endsLine_iff.2 hcond.2⟩
  · rintro ⟨digits, rest, rfl, hne, hdecimal, hend⟩
    have hstop : rest.takeWhile Text.isDecimal = [] := by
      cases rest with
      | nil => rfl
      | cons c rest => exact List.takeWhile_cons_of_neg (by simp [hend.not_isDecimal c rfl])
    have htake : (digits ++ rest).takeWhile Text.isDecimal = digits := by
      rw [List.takeWhile_append_of_pos hdecimal, hstop, List.append_nil]
    have hdrop : (digits ++ rest).dropWhile Text.isDecimal = rest := by
      have hsplit := List.takeWhile_append_dropWhile (p := Text.isDecimal) (l := digits ++ rest)
      rw [htake] at hsplit
      exact List.append_cancel_left hsplit
    have hcond : ¬ (digits.isEmpty || !Text.isBlankText (rest.takeWhile (· ≠ '\n'))) = true := by
      simp only [endsLine_iff.1 hend, List.isEmpty_iff, hne, Bool.or_eq_true, Bool.not_true,
        Bool.false_eq_true, or_self, not_false_eq_true]
    simp only [lineNumber?, htake, hdrop, if_neg hcond, Option.isSome_some]

lemma isSome_placeWithin_iff {cs : List Char} :
    (placeWithin cs).isSome = true ↔
      ∃ file after, cs = file ++ (" on line ".toList ++ after) ∧ '\n' ∉ file ∧
        (lineNumber? after).isSome = true := by
  induction cs with
  | nil => simp [placeWithin]
  | cons c cs ih =>
    rw [placeWithin]
    split
    · rename_i digits hnumber
      obtain ⟨after, hafter, hdigits⟩ := Option.bind_eq_some_iff.1 hnumber
      refine iff_of_true rfl ⟨[], after, eq_of_after hafter, List.not_mem_nil, ?_⟩
      rw [hdigits]
      rfl
    · rename_i hnone
      have hcons (file after : List Char) (hsome : (lineNumber? after).isSome = true)
          (h : c :: cs = file ++ (" on line ".toList ++ after)) :
          ∃ file', file = c :: file' := by
        cases file with
        | nil =>
          rw [h, List.nil_append, after_append, Option.bind_some] at hnone
          rw [hnone] at hsome
          cases hsome
        | cons d file => exact ⟨file, by rw [(List.cons.inj h).1]⟩
      by_cases hc : c = '\n'
      · rw [if_pos hc]
        refine iff_of_false (by simp) ?_
        rintro ⟨file, after, h, hline, hsome⟩
        obtain ⟨file, rfl⟩ := hcons file after hsome h
        simp [hc] at hline
      · rw [if_neg hc, ih]
        constructor
        · rintro ⟨file, after, rfl, hline, hsome⟩
          exact ⟨c :: file, after, rfl, by simp [Ne.symm hc, hline], hsome⟩
        · rintro ⟨file, after, h, hline, hsome⟩
          obtain ⟨file, rfl⟩ := hcons file after hsome h
          exact ⟨file, after, (List.cons.inj h).2, fun hmem => hline (List.mem_cons_of_mem _ hmem),
            hsome⟩

lemma isSome_place_iff {cs : List Char} :
    (place? cs).isSome = true ↔ StartsWithPlace cs := by
  constructor
  · intro h
    cases cs with
    | nil => cases h
    | cons c cs =>
      rw [place?] at h
      split at h
      · cases h
      · rename_i hc
        obtain ⟨file, after, rfl, hline, hafter⟩ := isSome_placeWithin_iff.1 h
        obtain ⟨digits, rest, rfl, hdigits, hdecimal, hend⟩ := isSome_lineNumber_iff.1 hafter
        exact .place ⟨List.cons_ne_nil c file, by simp [Ne.symm hc, hline]⟩ hdigits hdecimal hend
  · rintro @⟨file, digits, rest, hfile, hdigits, hdecimal, hend⟩
    obtain ⟨c, file, rfl⟩ := List.exists_cons_of_ne_nil hfile.nonempty
    have hline := hfile.line
    rw [List.mem_cons, not_or] at hline
    rw [List.cons_append, place?, if_neg (Ne.symm hline.1)]
    exact isSome_placeWithin_iff.2 ⟨file, digits ++ rest, rfl, hline.2,
      isSome_lineNumber_iff.2 ⟨digits, rest, rfl, hdigits, hdecimal, hend⟩⟩

/-! ### The text -/

lemma of_textWithin {cs text digits : List Char} (h : textWithin cs = some (text, digits)) :
    ∃ after, cs = text ++ (" in ".toList ++ after) ∧ '\n' ∉ text ∧
      (place? after).isSome = true := by
  induction cs generalizing text with
  | nil => cases h
  | cons c cs ih =>
    rw [textWithin] at h
    split at h
    · rename_i found hplace
      cases h
      obtain ⟨after, hafter, hfound⟩ := Option.bind_eq_some_iff.1 hplace
      exact ⟨after, eq_of_after hafter, List.not_mem_nil, by rw [hfound]; rfl⟩
    · split at h
      · cases h
      · rename_i hc
        obtain ⟨⟨text', digits'⟩, hwithin, heq⟩ := Option.map_eq_some_iff.1 h
        cases heq
        obtain ⟨after, rfl, hline, hafter⟩ := ih hwithin
        exact ⟨after, rfl, by simp [Ne.symm hc, hline], hafter⟩

lemma isSome_textWithin {text after : List Char} (hline : '\n' ∉ text)
    (hafter : (place? after).isSome = true) :
    (textWithin (text ++ (" in ".toList ++ after))).isSome = true := by
  obtain ⟨digits, hdigits⟩ := Option.isSome_iff_exists.1 hafter
  induction text with
  | nil =>
    rw [List.nil_append, @textWithin_of_after _ digits (by rw [after_append]; exact hdigits)]
    rfl
  | cons c text ih =>
    rw [List.mem_cons, not_or] at hline
    rw [List.cons_append, textWithin]
    split
    · rfl
    · rw [if_neg (Ne.symm hline.1), Option.isSome_map]
      exact ih hline.2

lemma of_textAndPlace {cs text digits : List Char} (h : textAndPlace? cs = some (text, digits)) :
    ∃ after, cs = text ++ (" in ".toList ++ after) ∧ OnLine text ∧ StartsWithPlace after := by
  cases cs with
  | nil => cases h
  | cons c cs =>
    rw [textAndPlace?] at h
    split at h
    · cases h
    · rename_i hc
      obtain ⟨⟨text', digits'⟩, hwithin, heq⟩ := Option.map_eq_some_iff.1 h
      cases heq
      obtain ⟨after, rfl, hline, hafter⟩ := of_textWithin hwithin
      exact ⟨after, rfl, ⟨List.cons_ne_nil c text', by simp [Ne.symm hc, hline]⟩,
        isSome_place_iff.1 hafter⟩

lemma exists_textAndPlace {c : Char} {text after : List Char} (htext : OnLine (c :: text))
    (hafter : StartsWithPlace after) :
    ∃ text' digits, textAndPlace? (c :: text ++ (" in ".toList ++ after)) =
      some (c :: text', digits) := by
  have hline := htext.line
  rw [List.mem_cons, not_or] at hline
  obtain ⟨⟨text', digits⟩, hwithin⟩ := Option.isSome_iff_exists.1
    (isSome_textWithin hline.2 (isSome_place_iff.2 hafter))
  refine ⟨text', digits, ?_⟩
  rw [List.cons_append, textAndPlace?, if_neg (Ne.symm hline.1), hwithin]
  rfl

lemma of_textAfterBlanks {cs : List Char} {found : List Char × List Char}
    (h : textAfterBlanks? cs = some found) :
    ∃ blanks rest, cs = blanks ++ rest ∧ Text.isBlankText blanks = true ∧
      textAndPlace? rest = some found := by
  induction cs with
  | nil => cases h
  | cons c cs ih =>
    rw [textAfterBlanks?] at h
    split at h
    · rename_i hc
      rcases Option.or_eq_some_iff.1 h with hlater | ⟨-, hhere⟩
      · obtain ⟨blanks, rest, rfl, hblanks, hrest⟩ := ih hlater
        refine ⟨c :: blanks, rest, rfl, ?_, hrest⟩
        rw [Text.isBlankText, List.all_cons, hc]
        exact hblanks
      · exact ⟨[], c :: cs, rfl, rfl, hhere⟩
    · exact ⟨[], c :: cs, rfl, rfl, h⟩

lemma isSome_textAfterBlanks {blanks cs : List Char} (hblanks : Text.isBlankText blanks = true)
    (h : (textAndPlace? cs).isSome = true) : (textAfterBlanks? (blanks ++ cs)).isSome = true := by
  induction blanks with
  | nil =>
    cases cs with
    | nil => cases h
    | cons c cs =>
      rw [List.nil_append, textAfterBlanks?]
      split
      · rw [Option.isSome_or, h, Bool.or_true]
      · exact h
  | cons b blanks ih =>
    simp only [Text.isBlankText, List.all_cons, Bool.and_eq_true] at hblanks
    rw [List.cons_append, textAfterBlanks?, if_pos hblanks.1, Option.isSome_or, ih hblanks.2,
      Bool.true_or]

/-! ### The error -/

/-- The error that a text starts with, by its text and the digits of its place. -/
def errorAt? (cs : List Char) : Option (List Char × List Char) :=
  (afterKind? cs).bind textAfterBlanks?

lemma tells_of_errorAt {cs text digits : List Char} (h : errorAt? cs = some (text, digits)) :
    Tells cs text := by
  obtain ⟨rest, hrest, hfound⟩ := Option.bind_eq_some_iff.1 h
  obtain ⟨a, ha, rfl⟩ := eq_of_afterKind hrest
  obtain ⟨blanks, rest', rfl, hblanks, htext⟩ := of_textAfterBlanks hfound
  obtain ⟨after, rfl, hline, hafter⟩ := of_textAndPlace htext
  exact .error ha hblanks hline hafter

lemma isSome_errorAt {cs text : List Char} (h : Tells cs text) : (errorAt? cs).isSome = true := by
  cases h with
  | @error a blanks text after ha hblanks htext hafter =>
    obtain ⟨c, text, rfl⟩ := List.exists_cons_of_ne_nil htext.nonempty
    obtain ⟨text', digits, hfound⟩ := exists_textAndPlace htext hafter
    rw [errorAt?, afterKind_announcement ha, Option.bind_some]
    exact isSome_textAfterBlanks hblanks (by rw [hfound]; rfl)

lemma isBlankText_errorAt {cs text digits : List Char} (h : errorAt? cs = some (text, digits)) :
    Text.isBlankText text = true ↔ ∀ other, Tells cs other → Text.isBlankText other = true := by
  refine ⟨fun hblank other hother => ?_, fun hall => hall text (tells_of_errorAt h)⟩
  by_contra hnot
  cases hother with
  | @error a blanks other after ha hblanks hline hafter =>
    -- what stands before the first character that is not blank can be passed over as well
    obtain ⟨c, rest, hrest⟩ : ∃ c rest, other.dropWhile Text.isBlank = c :: rest := by
      refine List.exists_cons_of_ne_nil fun hnil => hnot ?_
      rw [Text.isBlankText, List.all_eq_true]
      exact List.dropWhile_eq_nil_iff.1 hnil
    have hsplit := List.takeWhile_append_dropWhile (p := Text.isBlank) (l := other)
    have hc : Text.isBlank c = false := by
      have hhead := List.head?_dropWhile_not Text.isBlank other
      rw [hrest] at hhead
      simpa using hhead
    have hrestline : OnLine (c :: rest) := by
      refine ⟨List.cons_ne_nil c rest, fun hmem => hline.line ?_⟩
      rw [← hrest] at hmem
      exact List.dropWhile_subset _ hmem
    obtain ⟨text', digits', hfound⟩ := exists_textAndPlace hrestline hafter
    have hpassed : Text.isBlankText (blanks ++ other.takeWhile Text.isBlank) = true := by
      rw [Text.isBlankText, List.all_append, Bool.and_eq_true]
      exact ⟨hblanks, List.all_eq_true.2 fun b hb => List.mem_takeWhile_imp hb⟩
    have hother := textAfterBlanks_append hpassed (by simpa using hc) hfound
    rw [List.append_assoc, ← List.append_assoc (other.takeWhile _), ← hrest, hsplit] at hother
    rw [errorAt?, afterKind_announcement ha, Option.bind_some, hother] at h
    cases h
    simp [Text.isBlankText, hc] at hblank

instance (before : List Char) : Decidable (EndsAtLine before) :=
  inferInstanceAs (Decidable (before = [] ∨ before.getLast? = some '\n'))

lemma endsAtLine_concat {before : List Char} {c : Char} :
    EndsAtLine (before ++ [c]) ↔ c = '\n' := by
  simp [EndsAtLine]

lemma findError_cons (start : Bool) (c : Char) (cs : List Char) :
    findError? start (c :: cs) =
      if start = true ∧ (errorAt? (c :: cs)).isSome = true then errorAt? (c :: cs)
      else findError? (c = '\n') cs := by
  rw [findError?]
  cases start with
  | false => simp
  | true =>
    simp only [if_true, true_and]
    rw [← errorAt?]
    cases errorAt? (c :: cs) <;> simp

/-- No line before the end of `before` starts an error, read in front of `told` and behind
`read`. -/
def Quiet (read before told : List Char) : Prop :=
  ∀ earlier later, before = earlier ++ later → later ≠ [] → EndsAtLine (read ++ earlier) →
    errorAt? (later ++ told) = none

lemma Quiet.tail {read before told : List Char} {c : Char} (h : Quiet read (c :: before) told) :
    Quiet (read ++ [c]) before told := by
  intro earlier later hsplit hlater hends
  exact h (c :: earlier) later (by rw [hsplit, List.cons_append]) hlater (by simpa using hends)

lemma findError_of_quiet {read before told : List Char} (h : Quiet read before told) :
    findError? (decide (EndsAtLine read)) (before ++ told) =
      findError? (decide (EndsAtLine (read ++ before))) told := by
  induction before generalizing read with
  | nil => simp
  | cons c before ih =>
    have hnone : EndsAtLine read → errorAt? (c :: (before ++ told)) = none := fun hends =>
      h [] (c :: before) rfl (List.cons_ne_nil c before) (by simpa using hends)
    have hnot : ¬ (decide (EndsAtLine read) = true ∧
        (errorAt? (c :: (before ++ told))).isSome = true) := by
      rintro ⟨hends, hsome⟩
      rw [hnone (of_decide_eq_true hends)] at hsome
      cases hsome
    have hnext := ih h.tail
    rw [decide_eq_decide.2 endsAtLine_concat] at hnext
    rw [List.cons_append, findError_cons, if_neg hnot, hnext]
    simp

lemma exists_of_findError {read cs : List Char} {found : List Char × List Char}
    (h : findError? (decide (EndsAtLine read)) cs = some found) :
    ∃ before told, cs = before ++ told ∧ EndsAtLine (read ++ before) ∧
      errorAt? told = some found ∧ Quiet read before told := by
  induction cs generalizing read with
  | nil => cases h
  | cons c cs ih =>
    rw [findError_cons] at h
    split at h
    · rename_i hhere
      refine ⟨[], c :: cs, rfl, by simpa using hhere.1, h, fun earlier later hsplit hlater => ?_⟩
      exact absurd (List.append_eq_nil_iff.1 hsplit.symm).2 hlater
    · rename_i hnot
      rw [← decide_eq_decide.2 (@endsAtLine_concat read c)] at h
      obtain ⟨before, told, rfl, hends, htold, hquiet⟩ := ih h
      refine ⟨c :: before, told, rfl, by simpa using hends, htold, ?_⟩
      intro earlier later hsplit hlater hstart
      cases earlier with
      | nil =>
        rw [List.nil_append] at hsplit
        rw [← hsplit, List.cons_append]
        by_contra hsome
        exact hnot ⟨by simpa using hstart, Option.isSome_iff_ne_none.2 hsome⟩
      | cons d earlier =>
        obtain ⟨rfl, htail⟩ := List.cons.inj hsplit
        exact hquiet earlier later htail hlater (by simpa using hstart)

lemma errorAt_eq_none_iff {cs : List Char} : errorAt? cs = none ↔ ∀ text, ¬ Tells cs text := by
  rw [← not_iff_not, ← ne_eq, ← Option.isSome_iff_ne_none]
  constructor
  · intro h hnot
    obtain ⟨⟨text, digits⟩, hfound⟩ := Option.isSome_iff_exists.1 h
    exact hnot text (tells_of_errorAt hfound)
  · intro h
    obtain ⟨text, htext⟩ : ∃ text, Tells cs text := by simpa using h
    exact isSome_errorAt htext

lemma exists_firstTold {printed : List Char} {found : List Char × List Char}
    (h : findError? true printed = some found) :
    ∃ told, FirstTold printed told ∧ errorAt? told = some found := by
  obtain ⟨before, told, hsplit, hends, htold, hquiet⟩ := @exists_of_findError [] printed found h
  refine ⟨told, ⟨⟨found.1, tells_of_errorAt htold⟩, before, hsplit, hends, ?_⟩, htold⟩
  exact fun earlier later hsplit hlater hstart =>
    errorAt_eq_none_iff.1 (hquiet earlier later hsplit hlater hstart)

lemma FirstTold.findError_eq {printed told : List Char} (h : FirstTold printed told) :
    findError? true printed = errorAt? told := by
  obtain ⟨⟨text, htext⟩, before, rfl, hends, hquiet⟩ := h
  have hfind := @findError_of_quiet [] before told fun earlier later hsplit hlater hstart =>
    errorAt_eq_none_iff.2 (hquiet earlier later hsplit hlater hstart)
  have hsome := isSome_errorAt htext
  cases told with
  | nil => cases hsome
  | cons c told =>
    rw [decide_eq_true (show EndsAtLine ([] ++ before) from hends), findError_cons,
      if_pos ⟨rfl, hsome⟩] at hfind
    exact hfind

lemma isBlankText_findError {printed text digits : List Char}
    (h : findError? true printed = some (text, digits)) :
    Text.isBlankText text = true ↔ IsTextless printed := by
  constructor
  · intro hblank
    obtain ⟨told, hfirst, htold⟩ := exists_firstTold h
    exact ⟨told, hfirst, (isBlankText_errorAt htold).1 hblank⟩
  · rintro ⟨told, hfirst, hall⟩
    rw [hfirst.findError_eq] at h
    exact (isBlankText_errorAt h).2 hall

/-! ### The message -/

/-- The text stands on one line, without blanks around it. -/
structure IsTidy (cs : List Char) : Prop where
  line : '\n' ∉ cs
  first : ∀ c ∈ cs.head?, Text.isBlank c = false
  last : ∀ c ∈ cs.getLast?, Text.isBlank c = false

lemma isTidy_trim {cs : List Char} (h : '\n' ∉ cs) : IsTidy (Text.trim cs) :=
  ⟨fun hmem => h (Text.trim_subset cs hmem), fun _ hc => Text.not_isBlank_of_head_trim hc,
    fun _ hc => Text.not_isBlank_of_getLast_trim hc⟩

lemma isTidy_firstRemark {printed line : List Char} (h : firstRemark? printed = some line) :
    IsTidy line ∧ line ≠ [] := by
  obtain ⟨l, hl, rfl⟩ := List.mem_map.1 (List.mem_of_find?_eq_some h)
  have hkept := List.find?_some h
  refine ⟨isTidy_trim (Text.notMem_of_mem_lines hl), fun hempty => ?_⟩
  simp [hempty] at hkept

lemma isTidy_status (status : Int) :
    IsTidy s!"syntax check failed with status {status}".toList ∧
      s!"syntax check failed with status {status}" ≠ "" := by
  obtain ⟨sign, n, hsign, hstatus⟩ : ∃ (sign : List Char) (n : Nat), '\n' ∉ sign ∧
      (toString status).toList = sign ++ Nat.toDigits 10 n := by
    cases status with
    | ofNat n => exact ⟨[], n, List.not_mem_nil, by simp [toString, Int.repr, Nat.repr]⟩
    | negSucc n => exact ⟨['-'], n + 1, by decide, by simp [toString, Int.repr, Nat.repr]⟩
  obtain ⟨ds, d, hds⟩ := (List.eq_nil_or_concat' (Nat.toDigits 10 n)).resolve_left
    Nat.toDigits_ne_nil
  have hdigits : ∀ c ∈ Nat.toDigits 10 n, Text.isBlank c = false := fun c hc =>
    (isDecimal_of_mem_toDigits hc).2
  have htext : s!"syntax check failed with status {status}".toList =
      "syntax check failed with status ".toList ++ (sign ++ Nat.toDigits 10 n) := by
    rw [String.toList_append, hstatus]
    rfl
  have hne : s!"syntax check failed with status {status}" ≠ "" := by
    intro hempty
    rw [hempty] at htext
    cases htext
  refine ⟨?_, hne⟩
  rw [htext]
  refine ⟨?_, ?_, ?_⟩
  · simp only [List.mem_append, not_or]
    refine ⟨by decide, hsign, fun hmem => ?_⟩
    have hfeed : Text.isBlank '\n' = true := by decide
    rw [hdigits _ hmem] at hfeed
    cases hfeed
  · rintro _ ⟨⟩
    decide
  · rw [hds, ← List.append_assoc, ← List.append_assoc, List.getLast?_concat]
    rintro _ ⟨⟩
    exact hdigits d (by rw [hds]; simp)

lemma not_isTextless {printed : List Char} (h : findError? true printed = none) :
    ¬ IsTextless printed := by
  rintro ⟨told, hfirst, -⟩
  obtain ⟨text, htext⟩ := hfirst.tells
  have hsome := isSome_errorAt htext
  rw [← hfirst.findError_eq, h] at hsome
  cases hsome

lemma isTidy_readMessage (printed : String) (status : Int) :
    IsTidy (readMessage printed status).text.toList ∧
      ((readMessage printed status).text = "" ↔ IsTextless printed.toList) := by
  cases hfind : findError? true printed.toList with
  | some found =>
    obtain ⟨text, digits⟩ := found
    obtain ⟨told, -, htold⟩ := exists_firstTold hfind
    have htext : (readMessage printed status).text = String.ofList (Text.trim text) := by
      simp only [readMessage, hfind, Message.located]
    have hline : '\n' ∉ text := by
      cases tells_of_errorAt htold with
      | error _ _ hline _ => exact hline.line
    rw [htext, String.toList_ofList, ← isBlankText_findError hfind, ← Text.trim_eq_nil_iff]
    exact ⟨isTidy_trim hline, by simp⟩
  | none =>
    have hnot := not_isTextless hfind
    cases hremark : firstRemark? printed.toList with
    | some line =>
      have htext : (readMessage printed status).text = String.ofList line := by
        simp only [readMessage, hfind, hremark, Message.located]
      obtain ⟨htidy, hne⟩ := isTidy_firstRemark hremark
      rw [htext, String.toList_ofList]
      exact ⟨htidy, iff_of_false (by simpa using hne) hnot⟩
    | none =>
      have htext : (readMessage printed status).text =
          s!"syntax check failed with status {status}" := by
        simp only [readMessage, hfind, hremark, Message.located]
      obtain ⟨htidy, hne⟩ := isTidy_status status
      rw [htext]
      exact ⟨htidy, iff_of_false hne hnot⟩

/-- **Messages that can be shown.** Whatever PHP prints, and whatever its exit status, the message
is fatal, at the start of a line, and its text is one line without blanks around it. The text is
empty just when the first error that PHP tells has a blank text however it is taken apart. -/
theorem readMessage_displayable (printed : String) (status : Int) :
    ∃ line text, readMessage printed status = ⟨line, 1, .fatal, text, none⟩ ∧ 1 ≤ line ∧
      IsTidy text.toList ∧ (text = "" ↔ IsTextless printed.toList) := by
  obtain ⟨line, text, hm⟩ := readMessage_eq printed status
  obtain ⟨htidy, hempty⟩ := isTidy_readMessage printed status
  rw [hm] at htidy hempty
  exact ⟨max line 1, text, hm, le_max_right line 1, htidy, hempty⟩

/-- An error without a text of its own: two blanks, and the file at once. -/
def textlessOutput : String := "Parse error:  in a.php on line 3\n"

/-- The message says nothing, though the line that tells the error has something to show. -/
theorem textless_error_says_nothing :
    readMessage textlessOutput 255 = ⟨3, 1, .fatal, "", none⟩ ∧
      firstRemark? textlessOutput.toList = some "Parse error:  in a.php on line 3".toList := by
  constructor
  · decide +kernel
  · decide +kernel

end SiteLint.PhpSyntax
