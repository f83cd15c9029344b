import SiteLint.PhpSyntax.Output
import SiteLint.Proofs.DocumentGrammar
import SiteLint.Proofs.TextCut

/-!
What is read of the errors that PHP prints.

The error's text and the place are told apart by the first " in " in the text and by the last
" on line " of the line: a file name may hold both, because behind it there is always something
that is neither a digit nor a blank before the line ends.
-/

namespace SiteLint.PhpSyntax

/-- How PHP announces an error that keeps a file from being parsed. -/
def announcements : List String :=
  ["Parse error:", "Fatal error:", "PHP Parse error:", "PHP Fatal error:"]

/-- An error as PHP prints it, with what is printed before it. -/
structure Complaint where
  /-- The lines before it. -/
  earlier : List String
  announcement : String
  /-- What stands between the announcement and the text. -/
  blanks : String
  text : String
  file : String
  line : Nat

namespace Complaint

/-- The line that tells the error, and what is printed after it. -/
def lineAnd (x : Complaint) (following : String) : String :=
  x.announcement ++ x.blanks ++ x.text ++ " in " ++ x.file ++ " on line " ++ toString x.line ++
    "\n" ++ following

/-- All that is printed. -/
def print (x : Complaint) (following : String) : String :=
  x.earlier.foldr (fun l later => l ++ "\n" ++ later) (x.lineAnd following)

/-- The error is the first that is announced, and its text and its file can be told apart. -/
structure Clear (x : Complaint) : Prop where
  earlier : ∀ l ∈ x.earlier, '\n' ∉ l.toList ∧ ∀ a ∈ announcements, ¬ a.toList <+: l.toList
  announcement : x.announcement ∈ announcements
  blanks : Text.isBlankText x.blanks.toList = true
  text_ne : x.text ≠ ""
  text_line : '\n' ∉ x.text.toList
  text_trim : Text.trim x.text.toList = x.text.toList
  file_ne : x.file ≠ ""
  file_line : '\n' ∉ x.file.toList
  apart : Text.breakAt " in ".toList (x.text ++ " in " ++ x.file).toList =
    some (x.text.toList, x.file.toList)
  line_lt : x.line < Text.countBound

end Complaint

/-! ### The place -/

lemma after_append (marker : String) (cs : List Char) :
    after? marker (marker.toList ++ cs) = some cs := by
  simp [after?]

lemma eq_of_after {marker : String} {cs rest : List Char} (h : after? marker cs = some rest) :
    cs = marker.toList ++ rest := by
  unfold after? at h
  split at h
  · rename_i hprefix
    obtain ⟨tail, rfl⟩ := List.isPrefixOf_iff_prefix.1 hprefix
    simpa using h
  · cases h

lemma takeWhile_line {l : List Char} (h : '\n' ∉ l) (rest : List Char) :
    (l ++ '\n' :: rest).takeWhile (· ≠ '\n') = l := by
  have hall : ∀ c ∈ l, decide (c ≠ '\n') = true := by
    intro c hc
    rw [decide_eq_true_eq]
    rintro rfl
    exact h hc
  rw [List.takeWhile_append_of_pos hall, List.takeWhile_cons_of_neg (by simp), List.append_nil]

lemma isDecimal_of_mem_toDigits {n : Nat} {c : Char} (h : c ∈ Nat.toDigits 10 n) :
    Text.isDecimal c = true ∧ Text.isBlank c = false := by
  have hascii : ∀ k ≤ 0x39, 0x30 ≤ k → Text.inRanges Text.decimalRanges k = true ∧
      Text.inRanges Text.blankRanges k = false := by decide
  obtain ⟨hlo, hhi⟩ := Json.isDigit_iff.1 (Json.isDigit_of_mem_toDigits h)
  exact hascii c.toNat hhi hlo

section

variable (n : Nat) (following : List Char)

lemma lineNumber_toDigits :
    lineNumber? (Nat.toDigits 10 n ++ '\n' :: following) = some (Nat.toDigits 10 n) := by
  have hall : ∀ c ∈ Nat.toDigits 10 n, Text.isDecimal c = true := fun c hc =>
    (isDecimal_of_mem_toDigits hc).1
  have hend : Text.isDecimal '\n' = false := by decide
  have hne : Nat.toDigits 10 n ≠ [] := Nat.toDigits_ne_nil
  simp [lineNumber?, List.takeWhile_append_of_pos hall, List.dropWhile_append_of_pos hall, hend,
    Text.isBlankText]

lemma lineNumber_none {l : List Char} (h : '\n' ∉ l) :
    lineNumber? (l ++ ' ' :: (Nat.toDigits 10 n ++ '\n' :: following)) = none := by
  have hdrop (tail : List Char) : (l ++ ' ' :: tail).dropWhile Text.isDecimal =
      l.dropWhile Text.isDecimal ++ ' ' :: tail := by
    have hblank : Text.isDecimal ' ' = false := by decide
    rw [List.dropWhile_append]
    split
    · simp_all
    · rfl
  have hline : '\n' ∉ l.dropWhile Text.isDecimal ++ ' ' :: Nat.toDigits 10 n := by
    have hend : Text.isDecimal '\n' = false := by decide
    simp only [List.mem_append, List.mem_cons, not_or]
    refine ⟨fun hl => h (List.dropWhile_subset _ hl), by decide, fun hd => ?_⟩
    simp [(isDecimal_of_mem_toDigits hd).1] at hend
  have hrest := takeWhile_line hline following
  rw [List.append_assoc, List.cons_append] at hrest
  have hnot :
      Text.isBlankText (l.dropWhile Text.isDecimal ++ ' ' :: Nat.toDigits 10 n) = false := by
    obtain ⟨d, ds, hds⟩ := List.exists_cons_of_ne_nil (Nat.toDigits_ne_nil (b := 10) (n := n))
    have hd := (isDecimal_of_mem_toDigits (n := n) (c := d) (hds ▸ List.mem_cons_self)).2
    simp [Text.isBlankText, hds, hd]
  simp only [lineNumber?, hdrop, hrest, hnot]
  simp

lemma placeWithin_of_after {cs digits : List Char}
    (h : (after? " on line " cs).bind lineNumber? = some digits) :
    placeWithin cs = some digits := by
  cases cs with
  | nil => cases h
  | cons c cs => rw [placeWithin, h]

lemma after_line_none {l : List Char} (hne : l ≠ []) (h : '\n' ∉ l) :
    (after? " on line "
      (l ++ (" on line ".toList ++ (Nat.toDigits 10 n ++ '\n' :: following)))).bind lineNumber? =
        none := by
  rw [Option.bind_eq_none_iff]
  intro rest hrest
  have hsplit : (l ++ " on line".toList) ++ ' ' :: (Nat.toDigits 10 n ++ '\n' :: following) =
      " on line ".toList ++ rest := by
    rw [← eq_of_after hrest]
    simp
  have hlength : " on line ".toList.length ≤ (l ++ " on line".toList).length := by
    have hpos := List.length_pos_iff.2 hne
    simp
    omega
  obtain ⟨u, hu⟩ := List.prefix_of_prefix_length_le ⟨rest, hsplit.symm⟩ (List.prefix_append _ _)
    hlength
  have hline : '\n' ∉ u := fun hmem => by
    have hin : '\n' ∈ l ++ " on line".toList := hu ▸ List.mem_append_right _ hmem
    simp [h] at hin
  rw [← hu, List.append_assoc, List.append_cancel_left_eq] at hsplit
  rw [← hsplit]
  exact lineNumber_none n following hline

lemma placeWithin_append {l : List Char} (h : '\n' ∉ l) :
    placeWithin (l ++ (" on line ".toList ++ (Nat.toDigits 10 n ++ '\n' :: following))) =
      some (Nat.toDigits 10 n) := by
  induction l with
  | nil =>
    refine placeWithin_of_after ?_
    rw [List.nil_append, after_append, Option.bind_some, lineNumber_toDigits]
  | cons c l ih =>
    have hnone := after_line_none n following (List.cons_ne_nil c l) h
    rw [List.mem_cons, not_or] at h
    rw [List.cons_append] at hnone ⊢
    rw [placeWithin, hnone]
    simp only [if_neg (Ne.symm h.1)]
    exact ih h.2

lemma place_append {file : List Char} (hne : file ≠ []) (h : '\n' ∉ file) :
    place? (file ++ (" on line ".toList ++ (Nat.toDigits 10 n ++ '\n' :: following))) =
      some (Nat.toDigits 10 n) := by
  cases file with
  | nil => exact absurd rfl hne
  | cons c file =>
    rw [List.mem_cons, not_or] at h
    rw [List.cons_append, place?, if_neg (Ne.symm h.1)]
    exact placeWithin_append n following h.2

end

/-! ### The text -/

lemma textWithin_of_after {cs digits : List Char}
    (h : (after? " in " cs).bind place? = some digits) : textWithin cs = some ([], digits) := by
  cases cs with
  | nil => cases h
  | cons c cs => rw [textWithin, h]

lemma textWithin_append {text file rest digits : List Char} (h : '\n' ∉ text)
    (hapart : Text.breakAt " in ".toList (text ++ (" in ".toList ++ file)) = some (text, file))
    (hplace : place? (file ++ rest) = some digits) :
    textWithin (text ++ (" in ".toList ++ (file ++ rest))) = some (text, digits) := by
  induction text with
  | nil =>
    refine textWithin_of_after ?_
    rw [List.nil_append, after_append, Option.bind_some, hplace]
  | cons c text ih =>
    rw [List.mem_cons, not_or] at h
    rw [List.cons_append] at hapart
    obtain ⟨hnot, hlater⟩ := Text.breakAt_cons hapart
    have hnone : after? " in " (c :: (text ++ (" in ".toList ++ (file ++ rest)))) = none := by
      refine if_neg fun hprefix => hnot ?_
      refine List.prefix_of_prefix_length_le (List.isPrefixOf_iff_prefix.1 hprefix)
        ⟨rest, by simp⟩ ?_
      simp
      omega
    rw [List.cons_append, textWithin, hnone]
    simp only [Option.bind_none, if_neg (Ne.symm h.1), ih h.2 hlater, Option.map_some]

lemma textAndPlace_append {text file rest digits : List Char} (hne : text ≠ []) (h : '\n' ∉ text)
    (hapart : Text.breakAt " in ".toList (text ++ (" in ".toList ++ file)) = some (text, file))
    (hplace : place? (file ++ rest) = some digits) :
    textAndPlace? (text ++ (" in ".toList ++ (file ++ rest))) = some (text, digits) := by
  cases text with
  | nil => exact absurd rfl hne
  | cons c text =>
    rw [List.mem_cons, not_or] at h
    rw [List.cons_append] at hapart
    have htext := textWithin_append h.2 (Text.breakAt_cons hapart).2 hplace
    rw [List.cons_append, textAndPlace?, if_neg (Ne.symm h.1), htext, Option.map_some]

lemma textAfterBlanks_append {blanks cs : List Char} {found : List Char × List Char}
    (hblanks : Text.isBlankText blanks = true) (hstart : ∀ c ∈ cs.head?, Text.isBlank c = false)
    (hfound : textAndPlace? cs = some found) : textAfterBlanks? (blanks ++ cs) = some found := by
  induction blanks with
  | nil =>
    cases cs with
    | nil => cases hfound
    | cons c cs =>
      have hc : Text.isBlank c = false := hstart c rfl
      rw [List.nil_append, textAfterBlanks?, hc]
      exact hfound
  | cons c blanks ih =>
    simp only [Text.isBlankText, List.all_cons, Bool.and_eq_true] at hblanks
    rw [List.cons_append, textAfterBlanks?, if_pos hblanks.1, ih hblanks.2, Option.some_or]

/-! ### The announcement -/

lemma afterKind_announcement {a : String} (h : a ∈ announcements) (cs : List Char) :
    afterKind? (a.toList ++ cs) = some cs := by
  simp only [announcements, List.mem_cons, List.not_mem_nil, or_false] at h
  rcases h with rfl | rfl | rfl | rfl <;> simp [afterKind?, after?]

lemma eq_of_afterKind {cs rest : List Char} (h : afterKind? cs = some rest) :
    ∃ a ∈ announcements, cs = a.toList ++ rest := by
  have hkind : ∀ tail, (after? "Parse error:" tail).or (after? "Fatal error:" tail) = some rest →
      tail = "Parse error:".toList ++ rest ∨ tail = "Fatal error:".toList ++ rest := by
    intro tail htail
    rcases Option.or_eq_some_iff.1 htail with hafter | ⟨-, hafter⟩
    · exact .inl (eq_of_after hafter)
    · exact .inr (eq_of_after hafter)
  cases hphp : after? "PHP " cs with
  | none =>
    rw [afterKind?, hphp] at h
    rcases hkind cs h with rfl | rfl
    · exact ⟨"Parse error:", by simp [announcements], rfl⟩
    · exact ⟨"Fatal error:", by simp [announcements], rfl⟩
  | some tail =>
    obtain rfl := eq_of_after hphp
    rw [afterKind?, hphp] at h
    rcases hkind tail h with rfl | rfl
    · exact ⟨"PHP Parse error:", by simp [announcements], rfl⟩
    · exact ⟨"PHP Fatal error:", by simp [announcements], rfl⟩

lemma prefix_line {m l later : List Char} (hm : '\n' ∉ m) (h : m <+: l ++ '\n' :: later) :
    m <+: l := by
  rcases List.prefix_or_prefix_of_prefix h (List.prefix_append l _) with hp | ⟨t, rfl⟩
  · exact hp
  · cases t with
    | nil => simp
    | cons c t =>
      obtain ⟨rfl, -⟩ := List.cons_prefix_cons.1 ((List.prefix_append_right_inj l).1 h)
      simp at hm

lemma findError_rest {l : List Char} (hline : '\n' ∉ l) (later : List Char) :
    findError? false (l ++ '\n' :: later) = findError? true later := by
  induction l with
  | nil => simp [findError?]
  | cons c l ih =>
    rw [List.mem_cons, not_or] at hline
    simp [findError?, Ne.symm hline.1, ih hline.2]

lemma findError_line {l : List Char} (hline : '\n' ∉ l)
    (h : ∀ a ∈ announcements, ¬ a.toList <+: l) (later : List Char) :
    findError? true (l ++ '\n' :: later) = findError? true later := by
  have hnone : afterKind? (l ++ '\n' :: later) = none := by
    rw [Option.eq_none_iff_forall_ne_some]
    intro rest hrest
    obtain ⟨a, ha, hsplit⟩ := eq_of_afterKind hrest
    have hflat : ∀ a ∈ announcements, '\n' ∉ a.toList := by decide
    exact h a ha (prefix_line (hflat a ha) ⟨rest, hsplit.symm⟩)
  cases l with
  | nil =>
    rw [List.nil_append] at hnone ⊢
    simp [findError?, hnone]
  | cons c l =>
    rw [List.mem_cons, not_or] at hline
    rw [List.cons_append] at hnone ⊢
    rw [findError?, hnone]
    simpa [Ne.symm hline.1] using findError_rest hline.2 later

lemma findError_lines {ls : List String}
    (h : ∀ l ∈ ls, '\n' ∉ l.toList ∧ ∀ a ∈ announcements, ¬ a.toList <+: l.toList)
    (later : String) :
    findError? true (ls.foldr (fun l later => l ++ "\n" ++ later) later).toList =
      findError? true later.toList := by
  induction ls with
  | nil => rfl
  | cons l ls ih =>
    rw [List.forall_mem_cons] at h
    have hskip := findError_line h.1.1 h.1.2
    simpa [hskip] using ih h.2

lemma findError_append {a : String} (h : a ∈ announcements) {cs : List Char}
    {found : List Char × List Char} (hfound : textAfterBlanks? cs = some found) :
    findError? true (a.toList ++ cs) = some found := by
  have hkind := afterKind_announcement h cs
  cases hcs : a.toList ++ cs with
  | nil =>
    rw [hcs] at hkind
    cases hkind
  | cons c tail =>
    rw [hcs] at hkind
    simp [findError?, hkind, hfound]

/-! ### The message -/

lemma findError_lineAnd {x : Complaint} (h : x.Clear) (following : String) :
    findError? true (x.lineAnd following).toList =
      some (x.text.toList, Nat.toDigits 10 x.line) := by
  have hplace := place_append x.line following.toList (by simpa using h.file_ne) h.file_line
  have hapart : Text.breakAt " in ".toList (x.text.toList ++ (" in ".toList ++ x.file.toList)) =
      some (x.text.toList, x.file.toList) := by simpa using h.apart
  have htext := textAndPlace_append (by simpa using h.text_ne) h.text_line hapart hplace
  have hstart (rest : List Char) :
      ∀ c ∈ (x.text.toList ++ rest).head?, Text.isBlank c = false := by
    obtain ⟨c, cs, hcs⟩ := List.exists_cons_of_ne_nil (l := x.text.toList)
      (by simpa using h.text_ne)
    have htrim := h.text_trim
    rw [hcs] at htrim ⊢
    rintro _ ⟨⟩
    exact Text.not_isBlank_of_trim htrim
  have hfound := findError_append h.announcement
    (textAfterBlanks_append h.blanks (hstart _) htext)
  have hlist : (x.lineAnd following).toList = x.announcement.toList ++ (x.blanks.toList ++
      (x.text.toList ++ (" in ".toList ++ (x.file.toList ++ (" on line ".toList ++
        (Nat.toDigits 10 x.line ++ '\n' :: following.toList)))))) := by
    simp [Complaint.lineAnd]
  rw [hlist, hfound]

lemma findError_print {x : Complaint} (h : x.Clear) (following : String) :
    findError? true (x.print following).toList =
      some (x.text.toList, Nat.toDigits 10 x.line) := by
  rw [Complaint.print, findError_lines h.earlier, findError_lineAnd h]

/-- **Errors are read back.** Whatever is printed around an error that PHP tells, and whatever its
exit status, the message has the error's text and its line. -/
theorem readMessage_print (x : Complaint) (h : x.Clear) (following : String) (status : Int) :
    readMessage (x.print following) status = ⟨max x.line 1, 1, .fatal, x.text, none⟩ := by
  have hcount : Text.readCount (Nat.toDigits 10 x.line) = some x.line := by
    simp [Text.readCount, Json.readDigits_toDigits, h.line_lt]
  simp only [readMessage, findError_print h, hcount, Option.getD_some, h.text_trim,
    String.ofList_toList]
  rfl

/-- An error in a file whose name holds a place and the word before it, behind a line that tells
another one only in part. -/
def tangledComplaint : Complaint where
  earlier := [" Parse error: x in y on line 1", "", "PHP  Fatal error: x in y on line 2"]
  announcement := "PHP Parse error:"
  blanks := "   "
  text := "syntax error, unexpected 'in' on line 5"
  file := "/a in b on line 7/c on line 7 "
  line := 0

theorem readMessage_tangled :
    tangledComplaint.Clear ∧
      readMessage (tangledComplaint.print "Errors parsing x") 255 =
        ⟨1, 1, .fatal, "syntax error, unexpected 'in' on line 5", none⟩ := by
  have hclear : tangledComplaint.Clear := by
    constructor <;> decide
  exact ⟨hclear, readMessage_print tangledComplaint hclear _ _⟩

end SiteLint.PhpSyntax
