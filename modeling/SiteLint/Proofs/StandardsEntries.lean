import SiteLint.CodeSniffer.Pass
import SiteLint.Proofs.StandardsRoundTrip

/-!
Which documents are standards reports, and what is read of them.

The document has to be one as a whole, and the entry of every file that is not generated has to have
the shape of an entry. A file that is given more than once stands where it was given first, with
what was given for it last. All else is an error of the tool.
-/

namespace SiteLint.CodeSniffer

open Json (Defaulted Fields IsCount IsText Items KeepsMembers Last Nullable Once Reads Required)

/-! ### The shape of entries -/

section

-- `find` tells which of the values under a name counts
variable (find : Json.Lookup)

/-- The fields of a finding. -/
structure Violation.Has (ms : Record Json) (x : Violation) : Prop where
  text : Required find "message" IsText ms x.text
  source : Defaulted find "source" (Nullable IsText) none ms x.source
  line : Defaulted find "line" IsCount 0 ms x.line
  column : Defaulted find "column" IsCount 0 ms x.column

/-- The value has the shape of a finding. -/
def Violation.Shapes (v : Json) (x : Violation) : Prop :=
  ∃ ms, Fields ["message", "source", "line", "column"] v ms ∧ x.Has find ms

/-- The value has the shape of an entry with these findings. -/
def EntryShapes (v : Json) (xs : List Violation) : Prop :=
  ∃ ms, Fields ["messages"] v ms ∧
    Defaulted find "messages" (Items (Violation.Shapes find)) [] ms xs

end

/-- The value is a report as a whole, with these entries under the paths of files. Each of them can
be kept. -/
inductive Document : Json → Record Json → Prop
  | empty {v : Json} {ms : Record Json} (h : Fields ["files"] v ms)
    (hfiles : Once "files" ms none) : Document v []
  | files {v : Json} {ms entries : Record Json} (h : Fields ["files"] v ms)
    (hfiles : Once "files" ms (some (.record entries)))
    (hkeep : ∀ e ∈ entries, e.2.Keepable entryDepth) : Document v entries

/-- What is printed is a report as a whole. -/
def Prints (printed : String) (entries : Record Json) : Prop :=
  ∃ v, Json.read? (Text.trim printed.toList) = some v ∧ Document v entries

/-! ### What is read of them -/

/-- The message warns of the finding. -/
structure Violation.ShownAs (x : Violation) (m : Message) : Prop where
  text : m.text = x.text
  rule : m.rule = x.source
  line : m.line = max 1 x.line
  column : m.column = max 1 x.column
  severity : m.severity = .warning

/-- The report is about the files in the entries that are not generated, in the order in which they
were given first, with the findings that were given last. -/
structure Shows (entries : Record Json) (r : Report) : Prop where
  paths : ∀ path, path ∈ r.files.map (·.path) ↔
    path ∈ entries.map (·.1) ∧ isGenerated path = false
  order : (r.files.map (·.path)).Pairwise fun p q =>
    (entries.map (·.1)).idxOf p < (entries.map (·.1)).idxOf q
  messages : ∀ f ∈ r.files, ∃ v xs, Last f.path entries (some v) ∧ EntryShapes Last v xs ∧
    List.Forall₂ Violation.ShownAs xs f.messages

/-- Why what is printed is no report. -/
inductive Faulty (printed : String) : ToolFault → Prop
  | malformed (h : Json.read? (Text.trim printed.toList) = none) :
    Faulty printed (.unreadableReport .malformed)
  | mismatched {v : Json} (hv : Json.read? (Text.trim printed.toList) = some v)
    (h : ∀ entries, ¬ Document v entries) : Faulty printed (.unreadableReport .mismatched)
  | entry {entries : Record Json} {path : String} {v : Json} (h : Prints printed entries)
    (hpath : isGenerated path = false) (hv : Last path entries (some v))
    (hshapes : ∀ xs, ¬ EntryShapes Last v xs) : Faulty printed (.unreadableEntry .mismatched)

/-! ### Reading an entry -/

lemma reads_violation : Reads Violation.read? (Violation.Shapes Once) := by
  intro v x
  simp only [Violation.read?, Option.bind_eq_bind, Option.bind_eq_some_iff, Json.fields_iff,
    Json.required_iff Json.reads_text, Json.withDefault_iff Json.reads_count,
    Json.withDefault_iff (Json.reads_optional Json.reads_text)]
  constructor
  · rintro ⟨ms, hms, text, htext, source, hsource, line, hline, column, hcolumn, h⟩
    cases h
    exact ⟨ms, hms, htext, hsource, hline, hcolumn⟩
  · rintro ⟨ms, hms, h⟩
    exact ⟨ms, hms, _, h.text, _, h.source, _, h.line, _, h.column, rfl⟩

lemma reads_violations : Reads violations? (EntryShapes Once) := by
  intro v xs
  simp only [violations?, Option.bind_eq_bind, Option.bind_eq_some_iff, Json.fields_iff,
    Json.withDefault_iff (Json.reads_listOf reads_violation), EntryShapes]

lemma agree_violation : Json.Agree (Violation.Shapes Last) (Violation.Shapes Once) := by
  refine Json.agree_fields (by decide) fun depth ms kept hkept x => ?_
  have hsource := Json.agree_nullable Json.agree_text
  constructor
  · intro h
    exact ⟨(Json.required_last_iff hkept Json.agree_text).1 h.text,
      (Json.defaulted_last_iff hkept hsource).1 h.source,
      (Json.defaulted_last_iff hkept Json.agree_count).1 h.line,
      (Json.defaulted_last_iff hkept Json.agree_count).1 h.column⟩
  · intro h
    exact ⟨(Json.required_last_iff hkept Json.agree_text).2 h.text,
      (Json.defaulted_last_iff hkept hsource).2 h.source,
      (Json.defaulted_last_iff hkept Json.agree_count).2 h.line,
      (Json.defaulted_last_iff hkept Json.agree_count).2 h.column⟩

lemma agree_entryShapes : Json.Agree (EntryShapes Last) (EntryShapes Once) :=
  Json.agree_fields (by decide) fun _ _ _ hkept _ =>
    Json.defaulted_last_iff hkept (Json.agree_items agree_violation)

/-! ### Reading a document -/

lemma fileEntries_eq_some_iff {v : Json} {kept : Record Json} :
    fileEntries? v = some kept ↔
      ∃ entries, Document v entries ∧ KeepsMembers entryDepth entries kept := by
  simp only [fileEntries?, Option.bind_eq_bind, Option.bind_eq_some_iff, Json.fields_iff,
    Json.field_iff_once]
  constructor
  · rintro ⟨ms, hms, found, hfound, h⟩
    split at h
    · cases h
      exact ⟨[], .empty hms hfound, rfl⟩
    · obtain ⟨members, hmembers, hkept⟩ := Option.bind_eq_some_iff.1 h
      have hsome := Option.isSome_of_eq_some hmembers
      obtain ⟨entries, rfl⟩ := Json.exists_record (Json.isSome_soundMembers.1 hsome).1
      obtain rfl := Json.obj.inj (Json.eq_record_of_members hkept)
      exact ⟨entries, .files hms hfound (Json.exists_keepsMembers_iff.1 ⟨kept, hmembers⟩),
        hmembers⟩
    · cases h
  · rintro ⟨entries, hdocument, hkept⟩
    cases hdocument with
    | empty hms hfound =>
      obtain rfl : kept = [] := by simpa [KeepsMembers, Json.soundMembers?] using hkept
      exact ⟨_, hms, none, hfound, rfl⟩
    | files hms hfound =>
      refine ⟨_, hms, _, hfound, ?_⟩
      exact Option.bind_eq_some_iff.2 ⟨_, hkept, Json.members_record kept⟩

lemma exists_keepsMembers {v : Json} {entries : Record Json} (h : Document v entries) :
    ∃ kept, KeepsMembers entryDepth entries kept := by
  rw [Json.exists_keepsMembers_iff]
  cases h with
  | empty => simp
  | files _ _ hkeep => exact hkeep

lemma fileEntries_eq_none_iff {v : Json} :
    fileEntries? v = none ↔ ∀ entries, ¬ Document v entries := by
  rw [Option.eq_none_iff_forall_ne_some]
  constructor
  · intro h entries hdocument
    obtain ⟨kept, hkept⟩ := exists_keepsMembers hdocument
    exact h kept (fileEntries_eq_some_iff.2 ⟨entries, hdocument, hkept⟩)
  · intro h kept hkept
    obtain ⟨entries, hdocument, -⟩ := fileEntries_eq_some_iff.1 hkept
    exact h entries hdocument

/-! ### The files of a report -/

lemma shownAs_iff {x : Violation} {m : Message} : x.ShownAs m ↔ x.message = m := by
  obtain ⟨line, column, severity, text, rule⟩ := m
  constructor
  · rintro ⟨rfl, rfl, rfl, rfl, rfl⟩
    simp [Violation.message, Message.located, max_comm]
  · intro h
    cases h
    exact ⟨rfl, rfl, max_comm _ _, max_comm _ _, rfl⟩

lemma shown_messages_iff {xs : List Violation} {ms : List Message} :
    List.Forall₂ Violation.ShownAs xs ms ↔ xs.map Violation.message = ms :=
  forall₂_map_iff @shownAs_iff

lemma fileResult_ok_iff {e : String × Json} {f : FileResult} :
    fileResult e = .ok f ↔
      f.path = e.1 ∧
        ∃ xs, EntryShapes Once e.2 xs ∧ List.Forall₂ Violation.ShownAs xs f.messages := by
  obtain ⟨path, messages⟩ := f
  simp only [fileResult, ← reads_violations e.2 _, shown_messages_iff]
  cases violations? e.2 with
  | none => simp
  | some xs => simp [eq_comm]

lemma exists_fileResult_iff {e : String × Json} :
    (∃ f, fileResult e = .ok f) ↔ ∃ xs, EntryShapes Once e.2 xs := by
  simp only [fileResult_ok_iff]
  constructor
  · rintro ⟨f, -, xs, hxs, -⟩
    exact ⟨xs, hxs⟩
  · rintro ⟨xs, hxs⟩
    exact ⟨⟨e.1, xs.map Violation.message⟩, rfl, xs, hxs, shown_messages_iff.2 rfl⟩

lemma fileResult_error {e : String × Json} {fault : ToolFault} (h : fileResult e = .error fault) :
    fault = .unreadableEntry .mismatched ∧ ∀ xs, ¬ EntryShapes Once e.2 xs := by
  simp only [fileResult, ← reads_violations e.2 _] at h ⊢
  cases hv : violations? e.2 with
  | none =>
    rw [hv] at h
    cases h
    exact ⟨rfl, by simp⟩
  | some xs =>
    rw [hv] at h
    cases h

section

variable {entries kept : Record Json} {r : Report}

lemma shows_of_reportOf (hkept : KeepsMembers entryDepth entries kept)
    (h : reportOf kept = .ok r) : Shows entries r := by
  obtain ⟨files, hfiles, rfl⟩ := map_ok_iff.1 h
  have hresults := mapM_ok_iff.1 hfiles
  have hpaths : files.map (·.path) = (kept.map (·.1)).filter fun path => !isGenerated path := by
    have hsame : (kept.filter fun e => !isGenerated e.1).map (·.1) = files.map (·.path) := by
      rw [← List.forall₂_eq_eq_eq, List.forall₂_map_left_iff, List.forall₂_map_right_iff]
      exact hresults.imp fun e f he => (fileResult_ok_iff.1 he).1.symm
    rw [← hsame, List.filter_map]
    rfl
  refine ⟨fun path => ?_, ?_, fun f hf => ?_⟩
  · rw [hpaths, List.mem_filter, Json.mem_names_of_keepsMembers hkept]
    simp
  · rw [hpaths]
    exact (Json.pairwise_idxOf_of_keepsMembers hkept).filter _
  · have hback : List.Forall₂ (fun f e => fileResult e = .ok f) files _ := .flip hresults
    obtain ⟨⟨path, w⟩, he, hf⟩ := exists_of_forall₂ hback hf
    obtain ⟨rfl, xs, hxs, hmessages⟩ := fileResult_ok_iff.1 hf
    obtain ⟨v, hv, hw⟩ := (Json.mem_keepsMembers_iff hkept).1 (List.mem_filter.1 he).1
    exact ⟨v, xs, hv, (agree_entryShapes hw xs).2 hxs, hmessages⟩

lemma exists_reportOf_iff (hkept : KeepsMembers entryDepth entries kept) :
    (∃ r, reportOf kept = .ok r) ↔
      ∀ path v, isGenerated path = false → Last path entries (some v) →
        ∃ xs, EntryShapes Last v xs := by
  have hfiles : (∃ r, reportOf kept = .ok r) ↔
      ∀ e ∈ kept.filter fun e => !isGenerated e.1, ∃ f, fileResult e = .ok f := by
    rw [← exists_mapM_ok_iff]
    simp only [reportOf, map_ok_iff]
    constructor
    · rintro ⟨-, files, hfiles, -⟩
      exact ⟨files, hfiles⟩
    · rintro ⟨files, hfiles⟩
      exact ⟨_, files, hfiles, rfl⟩
  rw [hfiles]
  simp only [exists_fileResult_iff, List.mem_filter]
  constructor
  · intro h path v hpath hv
    obtain ⟨w, hw, hmem⟩ := Json.exists_sound_of_last hkept hv
    obtain ⟨xs, hxs⟩ := h (path, w) ⟨hmem, by simp [hpath]⟩
    exact ⟨xs, (agree_entryShapes hw xs).2 hxs⟩
  · rintro h ⟨path, w⟩ ⟨hmem, hpath⟩
    obtain ⟨v, hv, hw⟩ := (Json.mem_keepsMembers_iff hkept).1 hmem
    obtain ⟨xs, hxs⟩ := h path v (by simpa using hpath) hv
    exact ⟨xs, (agree_entryShapes hw xs).1 hxs⟩

lemma of_reportOf_error {fault : ToolFault} (hkept : KeepsMembers entryDepth entries kept)
    (h : reportOf kept = .error fault) :
    fault = .unreadableEntry .mismatched ∧
      ∃ path v, isGenerated path = false ∧ Last path entries (some v) ∧
        ∀ xs, ¬ EntryShapes Last v xs := by
  obtain ⟨⟨path, w⟩, he, hfault⟩ := exists_of_mapM_error (map_error_iff.1 h)
  obtain ⟨hmem, hpath⟩ := List.mem_filter.1 he
  obtain ⟨hfault, hnot⟩ := fileResult_error hfault
  obtain ⟨v, hv, hw⟩ := (Json.mem_keepsMembers_iff hkept).1 hmem
  exact ⟨hfault, path, v, by simpa using hpath, hv,
    fun xs => mt (agree_entryShapes hw xs).1 (hnot xs)⟩

end

/-! ### Reading what is printed -/

section

variable {printed : String} {entries : Record Json}

lemma readReport_of_prints (h : Prints printed entries) :
    ∃ kept, KeepsMembers entryDepth entries kept ∧ readReport printed = reportOf kept := by
  obtain ⟨v, hread, hdocument⟩ := h
  obtain ⟨kept, hkept⟩ := exists_keepsMembers hdocument
  have hentries := fileEntries_eq_some_iff.2 ⟨entries, hdocument, hkept⟩
  exact ⟨kept, hkept, by simp only [readReport, hread, hentries]⟩

lemma readReport_cases (printed : String) :
    (Json.read? (Text.trim printed.toList) = none ∧
      readReport printed = .error (.unreadableReport .malformed)) ∨
    (∃ v, Json.read? (Text.trim printed.toList) = some v ∧ (∀ entries, ¬ Document v entries) ∧
      readReport printed = .error (.unreadableReport .mismatched)) ∨
    ∃ entries, Prints printed entries := by
  cases hread : Json.read? (Text.trim printed.toList) with
  | none => exact .inl ⟨rfl, by simp only [readReport, hread]⟩
  | some v =>
    cases hentries : fileEntries? v with
    | none =>
      exact .inr (.inl ⟨v, rfl, fileEntries_eq_none_iff.1 hentries,
        by simp only [readReport, hread, hentries]⟩)
    | some kept =>
      obtain ⟨entries, hdocument, -⟩ := fileEntries_eq_some_iff.1 hentries
      exact .inr (.inr ⟨entries, v, hread, hdocument⟩)

lemma readReport_error_iff {fault : ToolFault} :
    readReport printed = .error fault ↔ Faulty printed fault := by
  constructor
  · intro h
    rcases readReport_cases printed with
      ⟨hread, herror⟩ | ⟨v, hread, hnot, herror⟩ | ⟨entries, hprints⟩
    · cases herror.symm.trans h
      exact .malformed hread
    · cases herror.symm.trans h
      exact .mismatched hread hnot
    · obtain ⟨kept, hkept, hreport⟩ := readReport_of_prints hprints
      obtain ⟨rfl, path, v, hpath, hv, hnot⟩ := of_reportOf_error hkept (hreport ▸ h)
      exact .entry hprints hpath hv hnot
  · intro h
    cases h with
    | malformed hread => simp only [readReport, hread]
    | mismatched hread hnot =>
      simp only [readReport, hread, fileEntries_eq_none_iff.2 hnot]
    | entry hprints hpath hv hnot =>
      obtain ⟨kept, hkept, hreport⟩ := readReport_of_prints hprints
      rw [hreport]
      cases hr : reportOf kept with
      | error fault => rw [(of_reportOf_error hkept hr).1]
      | ok r =>
        obtain ⟨xs, hxs⟩ := (exists_reportOf_iff hkept).1 ⟨r, hr⟩ _ _ hpath hv
        exact absurd hxs (hnot xs)

end

/-- **Standards reports.** A text is read as a report exactly if it is one as a whole and, for every
file that is not generated, what was given last has the shape of an entry. The report shows these
entries. Nothing is asked of what was given for generated files, but that it can be kept. In all
other cases there is no report, but an error of the tool that tells what is wrong. -/
theorem report_iff_entries (printed : String) :
    ((∃ r, readReport printed = .ok r) ↔
      ∃ entries, Prints printed entries ∧ ∀ path v, isGenerated path = false →
        Last path entries (some v) → ∃ xs, EntryShapes Last v xs) ∧
    (∀ r, readReport printed = .ok r → ∃ entries, Prints printed entries ∧ Shows entries r) ∧
    ∀ e : Failure, (readReport printed).mapError (.tool passName) = .error e ↔
      ∃ fault, Faulty printed fault ∧ .tool passName fault = e := by
  have hprints {r : Report} (hr : readReport printed = .ok r) :
      ∃ entries, Prints printed entries := by
    rcases readReport_cases printed with ⟨-, herror⟩ | ⟨v, -, -, herror⟩ | hprints
    · cases herror.symm.trans hr
    · cases herror.symm.trans hr
    · exact hprints
  refine ⟨⟨?_, ?_⟩, fun r hr => ?_, fun e => ?_⟩
  · rintro ⟨r, hr⟩
    obtain ⟨entries, h⟩ := hprints hr
    obtain ⟨kept, hkept, hreport⟩ := readReport_of_prints h
    exact ⟨entries, h, (exists_reportOf_iff hkept).1 ⟨r, hreport ▸ hr⟩⟩
  · rintro ⟨entries, h, hshapes⟩
    obtain ⟨kept, hkept, hreport⟩ := readReport_of_prints h
    rw [hreport]
    exact (exists_reportOf_iff hkept).2 hshapes
  · obtain ⟨entries, h⟩ := hprints hr
    obtain ⟨kept, hkept, hreport⟩ := readReport_of_prints h
    exact ⟨entries, h, shows_of_reportOf hkept (hreport ▸ hr)⟩
  · simp only [mapError_error_iff, readReport_error_iff]

end SiteLint.CodeSniffer
