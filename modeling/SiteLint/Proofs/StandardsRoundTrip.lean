import SiteLint.CodeSniffer.Report
import SiteLint.Proofs.DocumentFields
import SiteLint.Proofs.EslintRoundTrip

/-!
Reports written in the way of PHP_CodeSniffer.

A report comes back as it was, and entries of generated files between its own leave no trace. They
are left out before anyone looks at what they stand for. But the document is taken in whole before
that, so that an entry that cannot be kept spoils the report, whatever its name.
-/

namespace SiteLint.CodeSniffer

open Json (Gap Lists Quoted Written)

/-! ### The writer -/

def violationJson (m : Message) : Json :=
  .record [("message", .text m.text), ("source", m.rule.elim .null .text), ("line", .nat m.line),
    ("column", .nat m.column)]

/-- The entry for a file, under its path. -/
def entryOf (f : FileResult) : String × Json :=
  (f.path, .record [("messages", .arr (f.messages.map violationJson))])

/-- A report with the given entries, as PHP_CodeSniffer writes it. -/
def reportJson (entries : List (String × Json)) : Json := .record [("files", .record entries)]

/-- The ways to write a report with the given entries. -/
inductive Writes (entries : List (String × Json)) : List Char → Prop
  | report {opening name between before files after : List Char} (hopening : Gap opening)
    (hname : Quoted "files" name) (hbetween : Gap between) (hbefore : Gap before)
    (h : Lists entries files) (hafter : Gap after) :
    Writes entries ('\x7b' :: (opening ++ (name ++ (between ++ ':' ::
      (before ++ ('\x7b' :: (files ++ ['\x7d']) ++ after)))) ++ ['\x7d']))

/-- A report that PHP_CodeSniffer can give: it has each path once, it passes over generated files,
and it warns at places that are counted from 1. -/
structure Proper (r : Report) : Prop where
  once : (r.files.map (·.path)).Nodup
  written : ∀ f ∈ r.files, isGenerated f.path = false
  warnings : ∀ f ∈ r.files, ∀ m ∈ f.messages, m.severity = .warning
  counted : ∀ f ∈ r.files, ∀ m ∈ f.messages, Eslint.Counted m

/-- The entries of a document are kept whole, with this many levels left to them. -/
def entryDepth : Nat := Json.depthLimit - 2

/-! ### What is read of an entry -/

/-- What a message is read as. -/
def violationOf (m : Message) : Violation := ⟨m.text, m.rule, m.line, m.column⟩

lemma read_violationJson {m : Message} (h : Eslint.Counted m) :
    Violation.read? (violationJson m) = some (violationOf m) := by
  simp [Violation.read?, violationJson, Json.fields_record, Json.count_nat h.line_lt,
    Json.count_nat h.column_lt, Json.optional_text, violationOf]

lemma message_violationOf {m : Message} (h : Eslint.Counted m) (hwarning : m.severity = .warning) :
    (violationOf m).message = m := by
  obtain ⟨line, column, severity, text, rule⟩ := m
  obtain rfl : severity = .warning := hwarning
  have hline : max line 1 = line := Nat.max_eq_left h.line_pos
  have hcolumn : max column 1 = column := Nat.max_eq_left h.column_pos
  simp [Violation.message, violationOf, Message.located, hline, hcolumn]

lemma fileResult_entryOf {f : FileResult} (hcounted : ∀ m ∈ f.messages, Eslint.Counted m)
    (hwarnings : ∀ m ∈ f.messages, m.severity = .warning) : fileResult (entryOf f) = .ok f := by
  have hread : violations? (entryOf f).2 = some (f.messages.map violationOf) := by
    have hlist := Json.listOf_map_eq fun m hm => read_violationJson (hcounted m hm)
    simp [violations?, entryOf, Json.fields_record, hlist]
  have hmessages : (f.messages.map violationOf).map Violation.message = f.messages := by
    rw [List.map_map]
    exact (List.map_congr_left fun m hm =>
      message_violationOf (hcounted m hm) (hwarnings m hm)).trans (List.map_id _)
  rw [fileResult, hread]
  exact congrArg Except.ok (by rw [hmessages]; rfl)

lemma mapM_fileResult {r : Report} (h : Proper r) :
    (r.files.map entryOf).mapM fileResult = .ok r.files := by
  rw [mapM_ok_iff, List.forall₂_map_left_iff, List.forall₂_same]
  exact fun f hf => fileResult_entryOf (h.counted f hf) (h.warnings f hf)

/-! ### What is kept of an entry -/

lemma sound_violationJson {m : Message} (h : Eslint.Counted m) (depth : Nat) :
    Json.sound? (depth + 1) (violationJson m) = some (violationJson m) := by
  have hrule : Json.sound? depth (m.rule.elim .null .text) = some (m.rule.elim .null .text) := by
    cases m.rule <;> rfl
  refine Json.sound_record (by simp) ?_
  simp only [List.forall_mem_cons]
  exact ⟨rfl, hrule, Json.sound_nat h.line_lt _, Json.sound_nat h.column_lt _, by simp⟩

lemma sound_entryOf {f : FileResult} (h : ∀ m ∈ f.messages, Eslint.Counted m) :
    Json.sound? entryDepth (entryOf f).2 = some (entryOf f).2 := by
  refine Json.sound_record (by simp) (List.forall_mem_singleton.2 ?_)
  exact Json.sound_arr (List.forall_mem_map.2 fun m hm => sound_violationJson (h m hm) _)

lemma soundMembers_entries {r : Report} (h : Proper r) :
    Json.soundMembers? entryDepth ((r.files.map entryOf).map fun (k, v) => (some k, v)) =
      some ((r.files.map entryOf).map fun (k, v) => (some k, v)) := by
  refine Json.soundMembers_record ?_ (List.forall_mem_map.2 fun f hf => ?_)
  · rw [List.map_map]
    exact h.once
  · exact sound_entryOf (h.counted f hf)

/-! ### What is read of a document -/

lemma fileEntries_reportJson (entries : List (String × Json)) :
    fileEntries? (reportJson entries) =
      (Json.soundMembers? entryDepth (entries.map fun (k, v) => (some k, v))).bind
        fun kept => (Json.obj kept).members? := by
  have hfield : Record.field? ["files"] [("files", Json.record entries)] =
      some (some (.record entries)) := Record.field_cons_self (by simp)
  rw [fileEntries?, reportJson, Json.fields_record]
  simp only [Option.bind_eq_bind, Option.bind_some, hfield]
  rfl

section

variable {r : Report} {entries : List (String × Json)}

lemma exists_fileEntries (h : Proper r)
    (hentries : entries.filter (fun e => !isGenerated e.1) = r.files.map entryOf)
    (hkeepable : ∀ e ∈ entries, e.2.Keepable entryDepth) :
    ∃ kept, fileEntries? (reportJson entries) = some kept ∧
      kept.filter (fun e => !isGenerated e.1) = r.files.map entryOf := by
  obtain ⟨kept, hmembers⟩ := Json.exists_keepsMembers_iff.2 hkeepable
  rw [Json.KeepsMembers] at hmembers
  refine ⟨kept, ?_, ?_⟩
  · rw [fileEntries_reportJson, hmembers, Option.bind_some]
    exact Json.members_record kept
  · have hfilter := Json.soundMembers_filter hmembers fun name => !name.any isGenerated
    have hmap (l : List (String × Json)) :
        (l.map fun (k, v) => (some k, v)).filter (fun m => !m.1.any isGenerated) =
          (l.filter fun e => !isGenerated e.1).map fun (k, v) => (some k, v) := by
      rw [List.filter_map]
      rfl
    rw [hmap, hmap, hentries, soundMembers_entries h] at hfilter
    exact (Json.record_injective (congrArg Json.obj (Option.some.inj hfilter))).symm

lemma fileEntries_eq_none (h : ∃ e ∈ entries, ¬ e.2.Keepable entryDepth) :
    fileEntries? (reportJson entries) = none := by
  obtain ⟨e, he, hnot⟩ := h
  have hnone : Json.soundMembers? entryDepth (entries.map fun (k, v) => (some k, v)) = none := by
    refine Option.eq_none_iff_forall_ne_some.2 fun members hmembers => ?_
    obtain ⟨kept, rfl⟩ := Json.exists_of_soundMembers hmembers
    exact hnot (Json.exists_keepsMembers_iff.1 ⟨kept, hmembers⟩ e he)
  rw [fileEntries_reportJson, hnone, Option.bind_none]

lemma keepable_entries (h : Proper r)
    (hentries : entries.filter (fun e => !isGenerated e.1) = r.files.map entryOf)
    (hkeepable : ∀ e ∈ entries, isGenerated e.1 = true → e.2.Keepable entryDepth) :
    ∀ e ∈ entries, e.2.Keepable entryDepth := by
  intro e he
  cases hgenerated : isGenerated e.1 with
  | true => exact hkeepable e he hgenerated
  | false =>
    have hmem : e ∈ r.files.map entryOf := by
      rw [← hentries]
      exact List.mem_filter.2 ⟨he, by simp [hgenerated]⟩
    obtain ⟨f, hf, rfl⟩ := List.mem_map.1 hmem
    rw [← Json.isSome_sound_iff, sound_entryOf (h.counted f hf)]
    rfl

lemma readReport_ok (h : Proper r)
    (hentries : entries.filter (fun e => !isGenerated e.1) = r.files.map entryOf)
    (hkeepable : ∀ e ∈ entries, isGenerated e.1 = true → e.2.Keepable entryDepth)
    {printed : String} (hread : Json.read? (Text.trim printed.toList) = some (reportJson entries)) :
    readReport printed = .ok r := by
  obtain ⟨kept, hkept, hfilter⟩ :=
    exists_fileEntries h hentries (keepable_entries h hentries hkeepable)
  simp only [readReport, hread, hkept, reportOf, hfilter, mapM_fileResult h]
  rfl

lemma readReport_error (h : ∃ e ∈ entries, ¬ e.2.Keepable entryDepth) {printed : String}
    (hread : Json.read? (Text.trim printed.toList) = some (reportJson entries)) :
    readReport printed = .error (.unreadableReport .mismatched) := by
  simp only [readReport, hread, fileEntries_eq_none h]

end

/-! ### The text -/

lemma Writes.read {entries : List (String × Json)} {text : List Char} (h : Writes entries text) :
    Json.read? text = some (reportJson entries) := by
  obtain ⟨hopening, hname, hbetween, hbefore, hfiles, hafter⟩ := h
  have hlist : Lists [("files", .record entries)] _ :=
    .one hopening hname hbetween (hfiles.read hbefore hafter)
  simpa [reportJson] using hlist.read .nil .nil

lemma Writes.braces {entries : List (String × Json)} {text : List Char} (h : Writes entries text) :
    ∃ inner, text = '\x7b' :: (inner ++ ['\x7d']) := by
  cases h
  exact ⟨_, rfl⟩

lemma Writes.of_written {entries : List (String × Json)} {text : List Char}
    (h : Written (.value (reportJson entries)) text) : Writes entries text := by
  obtain ⟨inner, hinner, rfl⟩ := h.braces
  cases hinner with
  | member hopening hname hbetween helement =>
    cases helement with
    | element hbefore hvalue hafter =>
      obtain ⟨files, hfiles, rfl⟩ := hvalue.braces
      exact .report hopening hname hbetween hbefore (.of_written hfiles) hafter

lemma trim_braces {before text after : String} (hbefore : Text.isBlankText before.toList = true)
    (hafter : Text.isBlankText after.toList = true)
    (hbraces : ∃ inner, text.toList = '\x7b' :: (inner ++ ['\x7d'])) :
    Text.trim (before ++ text ++ after).toList = text.toList := by
  obtain ⟨inner, hinner⟩ := hbraces
  rw [String.toList_append, String.toList_append, hinner]
  simpa using Text.trim_between (c := '\x7b') (d := '\x7d') (by decide) (by decide) hbefore hafter

lemma plain_violationJson (m : Message) : (violationJson m).Plain := by
  refine .record _ ?_
  simp only [List.forall_mem_cons]
  exact ⟨.text _, .optional _, .nat _, .nat _, by simp⟩

lemma plain_entryOf (f : FileResult) : (entryOf f).2.Plain :=
  .record _ (List.forall_mem_singleton.2
    (.arr _ (List.forall_mem_map.2 fun m _ => plain_violationJson m)))

lemma written_render {entries : List (String × Json)} (h : ∀ e ∈ entries, e.2.Plain) :
    Written (.value (reportJson entries)) (reportJson entries).render.toList := by
  have hplain : (reportJson entries).Plain :=
    .record _ (List.forall_mem_singleton.2 (.record _ h))
  rw [Json.render, String.toList_ofList]
  exact hplain.regular 0

/-- **Round trip.** However a report is written in the way of PHP_CodeSniffer, with whatever blanks
around it, it is read as it was; and it can be written. Entries of generated files, anywhere between
its own, do not change what is read as long as each of them can be kept. With an entry that cannot
be kept, the document is refused. -/
theorem report_read_back (r : Report) (h : Proper r) :
    (∀ before text after : String, Text.isBlankText before.toList = true →
      Text.isBlankText after.toList = true →
      Written (.value (reportJson (r.files.map entryOf))) text.toList →
      readReport (before ++ text ++ after) = .ok r) ∧
    Written (.value (reportJson (r.files.map entryOf)))
      (reportJson (r.files.map entryOf)).render.toList ∧
    ∀ entries : List (String × Json),
      entries.filter (fun e => !isGenerated e.1) = r.files.map entryOf →
      ∀ before text after : String, Text.isBlankText before.toList = true →
        Text.isBlankText after.toList = true → Writes entries text.toList →
        ((∀ e ∈ entries, isGenerated e.1 = true → e.2.Keepable entryDepth) →
          readReport (before ++ text ++ after) = .ok r) ∧
        ((∃ e ∈ entries, ¬ e.2.Keepable entryDepth) →
          readReport (before ++ text ++ after) = .error (.unreadableReport .mismatched)) := by
  have hown : ∀ e ∈ r.files.map entryOf, isGenerated e.1 = false :=
    List.forall_mem_map.2 fun f hf => h.written f hf
  refine ⟨fun before text after hbefore hafter htext => ?_, ?_,
    fun entries hentries before text after hbefore hafter htext => ?_⟩
  · have hread := htext.read
    rw [← trim_braces hbefore hafter (Writes.of_written htext).braces] at hread
    refine readReport_ok h (List.filter_eq_self.2 fun e he => ?_) (fun e he hgenerated => ?_) hread
    · simp [hown e he]
    · simp [hown e he] at hgenerated
  · exact written_render (List.forall_mem_map.2 fun f _ => plain_entryOf f)
  · have hread := htext.read
    rw [← trim_braces hbefore hafter htext.braces] at hread
    exact ⟨fun hkeepable => readReport_ok h hentries hkeepable hread,
      fun hnot => readReport_error hnot hread⟩

/-- A report with a path that has to be escaped, and a finding far down in a file. -/
def oddReport : Report :=
  ⟨[⟨"a \"b\"\n.inc", [⟨Text.countBound - 1, 1, .warning, "UPGRADE\u2028", some "\\u0000"⟩,
      ⟨1, Text.countBound - 1, .warning, "", none⟩]⟩,
    ⟨"", []⟩]⟩

/-- Its entries between those of generated files: one that is given twice, and values of any
kind. -/
def strewnEntries : List (String × Json) :=
  ("a.features.inc", .nat 7) :: entryOf oddReport.files[0] ::
    ("/b/a.strongarm.inc", .arr [.null, .record [("messages", .bool true)]]) ::
    ("a.features.inc", .text "\x7b") :: entryOf oddReport.files[1] ::
    [("b.context.inc", .record [("x", .null), ("x", .arr [])])]

lemma proper_oddReport : Proper oddReport := by
  have hcounted : ∀ f ∈ oddReport.files, ∀ m ∈ f.messages, Eslint.Counted m := by
    simp only [oddReport, List.forall_mem_cons]
    exact ⟨⟨⟨by decide, by decide, by decide, by decide⟩,
      ⟨by decide, by decide, by decide, by decide⟩, by simp⟩, by simp, by simp⟩
  refine ⟨by simp [oddReport], ?_, by simp [oddReport], hcounted⟩
  simp only [oddReport, List.forall_mem_cons]
  exact ⟨by cbv, by cbv, by simp⟩

lemma isGenerated_features : isGenerated "a.features.inc" = true := by cbv

lemma filter_strewnEntries :
    strewnEntries.filter (fun e => !isGenerated e.1) = oddReport.files.map entryOf := by
  have hown (f : FileResult) (hf : f ∈ oddReport.files) : isGenerated (entryOf f).1 = false :=
    proper_oddReport.written f hf
  have hstrongarm : isGenerated "/b/a.strongarm.inc" = true := by cbv
  have hcontext : isGenerated "b.context.inc" = true := by cbv
  have hfiles : oddReport.files.map entryOf =
      [entryOf oddReport.files[0], entryOf oddReport.files[1]] := rfl
  simp [strewnEntries, isGenerated_features, hstrongarm, hcontext, hown, hfiles]

lemma plain_strewnEntries : ∀ e ∈ strewnEntries, e.2.Plain := by
  simp only [strewnEntries, List.forall_mem_cons]
  refine ⟨.nat _, plain_entryOf _, .arr _ ?_, .text _, plain_entryOf _, .record _ ?_, by simp⟩
  · simp only [List.forall_mem_cons]
    exact ⟨.null, .record _ (List.forall_mem_singleton.2 (.bool _)), by simp⟩
  · simp only [List.forall_mem_cons]
    exact ⟨.null, .arr _ (by simp), by simp⟩

lemma keepable_strewnEntries :
    ∀ e ∈ strewnEntries, isGenerated e.1 = true → e.2.Keepable entryDepth := by
  have hkept : ∀ e ∈ strewnEntries, (Json.sound? entryDepth e.2).isSome = true := by
    have hown (f : FileResult) (hf : f ∈ oddReport.files) :
        (Json.sound? entryDepth (entryOf f).2).isSome = true := by
      rw [sound_entryOf (proper_oddReport.counted f hf)]
      rfl
    simp only [strewnEntries, List.forall_mem_cons]
    exact ⟨by cbv, hown _ (by simp), by cbv, by cbv, hown _ (by simp), by cbv, by simp⟩
  exact fun e he _ => (Json.isSome_sound_iff _ _).1 (hkept e he)

theorem strewn_report_read_back :
    readReport ("\u00a0\n" ++ (reportJson (oddReport.files.map entryOf)).render ++ "\u3000") =
        .ok oddReport ∧
      readReport ("\t" ++ (reportJson strewnEntries).render ++ "") = .ok oddReport := by
  obtain ⟨hread, hwritten, hstrewn⟩ := report_read_back oddReport proper_oddReport
  have hwrites := Writes.of_written (written_render plain_strewnEntries)
  exact ⟨hread _ _ _ (by decide) (by decide) hwritten,
    (hstrewn _ filter_strewnEntries _ _ _ (by decide) (by decide) hwrites).1
      keepable_strewnEntries⟩

/-! ### An entry that is nested too deep -/

/-- So many arrays in each other. -/
def nested : Nat → Json
  | 0 => .null
  | k + 1 => .arr [nested k]

def nestedText : Nat → List Char
  | 0 => "null".toList
  | k + 1 => '[' :: (nestedText k ++ [']'])

lemma written_nested (k : Nat) : Written (.value (nested k)) (nestedText k) := by
  induction k with
  | zero => exact .null
  | succ k ih =>
    have hitem := Written.element .nil ih .nil
    rw [List.nil_append, List.append_nil] at hitem
    exact .arr (.item hitem)

lemma not_keepable_nested {k depth : Nat} (h : depth < k) : ¬ (nested k).Keepable depth := by
  induction k generalizing depth with
  | zero => omega
  | succ k ih =>
    intro hkeepable
    cases hkeepable with
    | @arr depth _ hitems => exact ih (by omega) (hitems _ (List.mem_singleton.2 rfl))

/-- A report on a generated file alone, with its entry as given. -/
def generatedText (entry : List Char) : List Char :=
  '\x7b' :: ("\"files\"".toList ++ ':' :: '\x7b' ::
    ("\"a.features.inc\"".toList ++ ':' :: (entry ++ ['\x7d', '\x7d'])))

lemma written_generatedText {v : Json} {entry : List Char} (h : Written (.value v) entry) :
    Written (.value (reportJson [("a.features.inc", v)])) (generatedText entry) := by
  have hfileName : Json.quotedKey (some "a.features.inc") = "\"a.features.inc\"".toList := by cbv
  have hfilesName : Json.quotedKey (some "files") = "\"files\"".toList := by cbv
  have hfile := Json.quoted_quotedKey "a.features.inc"
  have hfiles := Json.quoted_quotedKey "files"
  rw [hfileName] at hfile
  rw [hfilesName] at hfiles
  have hentry := Written.record (.member .nil hfile .nil (.element .nil h .nil))
  have hreport := Written.record (.member .nil hfiles .nil (.element .nil hentry .nil))
  simpa [generatedText, reportJson] using hreport

/-- The document is refused, though nothing is asked of the only entry in it. -/
theorem deep_entry_refused :
    Proper .empty ∧ isGenerated "a.features.inc" = true ∧
      Written (.value (reportJson [("a.features.inc", nested 200)]))
        (generatedText (nestedText 200)) ∧
      readReport (String.ofList (generatedText (nestedText 200))) =
        .error (.unreadableReport .mismatched) := by
  have hwritten := written_generatedText (written_nested 200)
  obtain ⟨inner, -, hinner⟩ := hwritten.braces
  have htrim : Text.trim (generatedText (nestedText 200)) = generatedText (nestedText 200) := by
    rw [hinner]
    exact @Text.trim_between [] inner [] '\x7b' '\x7d' (by decide) (by decide) rfl rfl
  have hread : Json.read? (Text.trim (String.ofList (generatedText (nestedText 200))).toList) =
      some (reportJson [("a.features.inc", nested 200)]) := by
    rw [String.toList_ofList, htrim]
    exact hwritten.read
  refine ⟨⟨by simp [Report.empty], by simp [Report.empty], by simp [Report.empty],
    by simp [Report.empty]⟩, isGenerated_features, hwritten, readReport_error ?_ hread⟩
  exact ⟨_, List.mem_singleton.2 rfl, not_keepable_nested (by decide)⟩

end SiteLint.CodeSniffer
