import SiteLint.CodeSniffer.Pass
import SiteLint.Proofs.Results
import SiteLint.Proofs.TextCut
import SiteLint.Proofs.TokenScan

/-!
The advertisement in the output of PHP_CodeSniffer, and the report in front of it.

What is cut off never changes a report unnoticed. In a document the advertisement can only stand
inside a string, and a document that is cut off inside a string is none. Behind a document without
it, the advertisement starts where the document ends, because it does not overlap with itself.
-/

namespace SiteLint

namespace Json

/-! ### Tokens in front of what starts none -/

/-- The characters that a token can start with, digits apart. -/
def tokenStarts : List Char := ['[', ']', '\x7b', '\x7d', ',', ':', 'n', 't', 'f', '"', '-']

lemma scanToken_eq_none {c : Char} (cs : List Char) (hdigit : isDigit c = false)
    (hstart : c ∉ tokenStarts) : scanToken (c :: cs) = none := by
  have hwhole : scanWhole (c :: cs) = none := by
    have hzero : c ≠ '0' := by
      rintro rfl
      exact absurd hdigit (by decide)
    simp [scanWhole, hzero, scanDigits, hdigit]
  unfold scanToken
  split
  case h_12 => simp [scanUnsigned, hwhole]
  all_goals
    rename_i heq
    obtain ⟨rfl, -⟩ := List.cons.inj heq
    exact absurd (by simp [tokenStarts]) hstart

lemma tokens_eq_none {c : Char} {cs : List Char} (hspace : isSpace c = false)
    (h : scanToken (c :: cs) = none) : tokens? (c :: cs) = none := by
  rw [tokens?, if_neg (by simp [hspace])]
  split
  · rfl
  · rename_i hsome
    rw [h] at hsome
    cases hsome

lemma isDigit_of_isBlank {c : Char} (h : Text.isBlank c = true) : isDigit c = false := by
  by_contra hdigit
  obtain ⟨hlo, hhi⟩ := isDigit_iff.1 (Bool.not_eq_false _ ▸ hdigit)
  simp [Text.isBlank, Text.inRanges, Text.blankRanges] at h
  omega

lemma scanToken_of_isBlank {c : Char} (cs : List Char) (h : Text.isBlank c = true) :
    scanToken (c :: cs) = none := by
  refine scanToken_eq_none cs (isDigit_of_isBlank h) fun hc => ?_
  have hnone : (tokenStarts.all fun c => !Text.isBlank c) = true := by decide
  have hblank := List.all_eq_true.1 hnone c hc
  rw [h] at hblank
  cases hblank

lemma scanToken_letter (cs : List Char) : scanToken ('U' :: cs) = none :=
  scanToken_eq_none cs (by decide) (by decide)

lemma tokens_blank_letter {w : List Char} (hw : Text.isBlankText w = true) (cs : List Char) :
    tokens? (w ++ 'U' :: cs) = none := by
  induction w with
  | nil => exact tokens_eq_none (by decide) (scanToken_letter cs)
  | cons c w ih =>
    obtain ⟨hc, hw⟩ : Text.isBlank c = true ∧ Text.isBlankText w = true := by
      simpa [Text.isBlankText] using hw
    by_cases hspace : isSpace c = true
    · rw [List.cons_append, tokens?, if_pos hspace, ih hw]
    · exact tokens_eq_none (by simpa using hspace) (scanToken_of_isBlank _ hc)

lemma endsNumber_blank_letter {w : List Char} (hw : Text.isBlankText w = true) (cs : List Char) :
    EndsNumber (w ++ 'U' :: cs) := by
  cases w with
  | nil => rintro c ⟨⟩; decide
  | cons c w =>
    obtain ⟨hc, -⟩ : Text.isBlank c = true ∧ Text.isBlankText w = true := by
      simpa [Text.isBlankText] using hw
    rintro c ⟨⟩
    refine ⟨isDigit_of_isBlank hc, ?_, ?_, ?_⟩
    · rintro rfl
      exact absurd hc (by decide)
    · rintro rfl
      exact absurd hc (by decide)
    · rintro rfl
      exact absurd hc (by decide)

/-- **Cut documents.** A document with such a letter in it, outside what is trimmed, is not made of
whole tokens in front of the letter. -/
lemma tokens_trim_of_append_letter {cs ds : List Char} {v : Json}
    (h : read? (Text.trim (cs ++ 'U' :: ds)) = some v) : tokens? (Text.trim cs) = none := by
  obtain ⟨w, hw, htrim⟩ := Text.trim_append_cons cs ds (show Text.isBlank 'U' = false by decide)
  by_contra hsome
  obtain ⟨ts, hts⟩ := Option.ne_none_iff_exists'.1 hsome
  have hall := tokens_append hts (endsNumber_blank_letter hw (Text.trimEnd ds))
  rw [tokens_blank_letter hw, ← htrim] at hall
  simp [read?, hall] at h

end Json

namespace CodeSniffer

/-! ### Reports in front of the advertisement -/

/-- The advertisement stands somewhere in a text. -/
def Advertises (printed : String) : Prop := advertisement.toList <:+: printed.toList

lemma advertisement_unbordered : Text.Unbordered advertisement.toList := by
  decide +kernel

lemma not_blank_of_readReport {printed : String} {r : Report} (h : readReport printed = .ok r) :
    Text.isBlankText printed.toList = false := by
  by_contra hblank
  have htrim := Text.trim_of_blank (Bool.not_eq_false _ ▸ hblank)
  simp [readReport, htrim, Json.read?, Json.tokens?, Json.ofTokens?] at h

lemma exists_read_of_readReport {printed : String} {r : Report} (h : readReport printed = .ok r) :
    ∃ v, Json.read? (Text.trim printed.toList) = some v := by
  unfold readReport at h
  split at h
  · cases h
  · exact ⟨_, ‹_›⟩

lemma judge_of_kept {printed : String} {kept : List Char} {strip : Bool}
    (hkept : OutputFilter.applyAll (filters strip) printed.toList = kept)
    (hblank : Text.isBlankText kept = false) (status : Int) :
    judge strip ⟨printed, some status⟩ =
      (readReport (String.ofList kept)).mapError (.tool passName) := by
  simp [judge, hkept, hblank]

lemma applyAll_filters (cs : List Char) :
    OutputFilter.applyAll (filters true) cs =
      match Text.breakAt advertisement.toList cs with
      | some (before, _) => before
      | none => cs := rfl

lemma judge_of_not_advertises {printed : String} {r : Report} (h : readReport printed = .ok r)
    (hadvert : ¬ Advertises printed) (status : Int) :
    judge true ⟨printed, some status⟩ = .ok r := by
  have hkept : OutputFilter.applyAll (filters true) printed.toList = printed.toList := by
    rw [applyAll_filters, Text.breakAt_eq_none_iff.2 hadvert]
  rw [judge_of_kept hkept (not_blank_of_readReport h), String.ofList_toList, h]
  rfl

lemma judge_of_advertises {printed : String} {r : Report} (h : readReport printed = .ok r)
    (hadvert : Advertises printed) (status : Int) :
    judge true ⟨printed, some status⟩ =
      .error (.tool passName (.unreadableReport .malformed)) := by
  cases hbreak : Text.breakAt advertisement.toList printed.toList with
  | none => exact absurd hadvert (Text.breakAt_eq_none_iff.1 hbreak)
  | some parts =>
    obtain ⟨before, after⟩ := parts
    have hkept : OutputFilter.applyAll (filters true) printed.toList = before := by
      rw [applyAll_filters, hbreak]
    have htokens : Json.tokens? (Text.trim before) = none := by
      obtain ⟨v, hv⟩ := exists_read_of_readReport h
      have hletter : advertisement.toList = 'U' :: advertisement.toList.tail := by decide +kernel
      rw [Text.breakAt_eq hbreak, List.append_assoc, hletter] at hv
      exact Json.tokens_trim_of_append_letter hv
    have hblank : Text.isBlankText before = false := by
      by_contra hblank
      rw [Text.trim_of_blank (by simpa using hblank)] at htokens
      simp [Json.tokens?] at htokens
    rw [judge_of_kept hkept hblank]
    simp [readReport, Json.read?, htokens, Except.mapError]

lemma judge_append_advertisement {printed : String} {r : Report} (h : readReport printed = .ok r)
    (hadvert : ¬ Advertises printed) (tail : String) (status : Int) :
    judge true ⟨printed ++ advertisement ++ tail, some status⟩ = .ok r := by
  have hkept : OutputFilter.applyAll (filters true) (printed ++ advertisement ++ tail).toList =
      printed.toList := by
    rw [applyAll_filters, String.toList_append, String.toList_append,
      Text.breakAt_append advertisement_unbordered hadvert]
  rw [judge_of_kept hkept (not_blank_of_readReport h), String.ofList_toList, h]
  rfl

/-- **Cutting off the advertisement.** From an output that holds a report, the check gets that
report, or an error if the advertisement stands inside the report; it never gets another report.
And when the advertisement is put behind a report without it, with anything behind that, the check
gets the report. -/
theorem report_survives_stripping {printed : String} {r : Report}
    (h : readReport printed = .ok r) {σ : Type} (host : Host) (c : Configuration) (run : Runner σ)
    (targets : List Target) (s : σ) (cmd : ToolCommand) (status : Int)
    (hstrip : c.stripAdvertisement = true) (hcmd : command host c targets = .ok cmd) :
    ((run cmd s).1 = .ok ⟨printed, some status⟩ →
      (check host c run targets s).1 = .ok r ∧ ¬ Advertises printed ∨
      (check host c run targets s).1 = .error (.tool passName (.unreadableReport .malformed)) ∧
        Advertises printed) ∧
    (¬ Advertises printed → ∀ tail : String,
      (run cmd s).1 = .ok ⟨printed ++ advertisement ++ tail, some status⟩ →
        (check host c run targets s).1 = .ok r) := by
  have hcheck (o : ToolOutput) (hrun : (run cmd s).1 = .ok o) :
      (check host c run targets s).1 = judge true o := by
    simp [check, hcmd, hrun, hstrip, Except.bind]
  refine ⟨fun hrun => ?_, fun hadvert tail hrun => ?_⟩
  · rw [hcheck _ hrun]
    by_cases hadvert : Advertises printed
    · exact .inr ⟨judge_of_advertises h hadvert status, hadvert⟩
    · exact .inl ⟨judge_of_not_advertises h hadvert status, hadvert⟩
  · rw [hcheck _ hrun]
    exact judge_append_advertisement h hadvert tail status

/-- A machine on which the top directory is the coding standard. -/
def standardHost : Host := ⟨.emptyTree, [], none, false, .ofString "/"⟩

/-- The set-up for that standard, with all else built in. -/
def standardConfiguration : Configuration :=
  .ofSettings (.ofString "/") (.ofString "/") none
    { Settings.none with phpcsStandard := some "/" } none

/-- The command that is run when no targets are given. -/
def standardCommand : ToolCommand where
  program := "/vendor/bin/phpcs"
  arguments := ["--standard=/", "--report=json",
    "--extensions=inc,install,module,php,profile,test,theme",
    "--ignore=" ++ String.intercalate "," generatedPatterns]
  directory := some (.ofString "/")

/-- Prints what it remembers. -/
def echoRunner : Runner ToolOutput := fun _ o => (.ok o, o)

/-- An output with one finding in it. -/
def oneFinding : String :=
  "\x7b\"files\":\x7b\"a.php\":\x7b\"messages\":[\x7b\"message\":\"No comment\"\x7d]\x7d\x7d\x7d\n"

def oneFindingReport : Report := ⟨[⟨"a.php", [⟨1, 1, .warning, "No comment", none⟩]⟩]⟩

set_option maxRecDepth 2000 in
lemma oneFinding_read : readReport oneFinding = .ok oneFindingReport := by cbv

/-- The report is found alone and in front of the advertisement, even if that is there twice. -/
theorem report_survives_stripping_twice :
    (check standardHost standardConfiguration echoRunner [] ⟨oneFinding, some 1⟩).1 =
        .ok oneFindingReport ∧
      (check standardHost standardConfiguration echoRunner []
        ⟨oneFinding ++ advertisement ++ advertisement, some 1⟩).1 = .ok oneFindingReport := by
  have hcmd : command standardHost standardConfiguration [] = .ok standardCommand := by cbv
  have hadvert : ¬ Advertises oneFinding := by
    intro h
    have hletter : 'U' ∈ oneFinding.toList := h.subset (by decide +kernel)
    exact absurd hletter (by decide +kernel)
  have halone := report_survives_stripping oneFinding_read standardHost standardConfiguration
    echoRunner [] ⟨oneFinding, some 1⟩ standardCommand 1 rfl hcmd
  have htwice := report_survives_stripping oneFinding_read standardHost standardConfiguration
    echoRunner [] ⟨oneFinding ++ advertisement ++ advertisement, some 1⟩ standardCommand 1 rfl hcmd
  refine ⟨?_, htwice.2 hadvert advertisement rfl⟩
  rcases halone.1 rfl with ⟨hfound, -⟩ | ⟨-, hcontra⟩
  · exact hfound
  · exact absurd hcontra hadvert

end CodeSniffer

end SiteLint
