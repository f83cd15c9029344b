import SiteLint.Proofs.DocumentFields
import SiteLint.Proofs.EslintRoundTrip

/-!
What becomes of the entries of an ESLint report.

A file that ESLint passed over is left out. Every other file is shown with all its findings in
their order, and a finding without a place stands at the top of its file. One entry that does not
have the shape of an entry is enough for no report at all.
-/

namespace SiteLint.Eslint

open Json (Defaulted Fields IsCount IsFlag IsText Items Nullable Once Reads Required)

/-! ### The shape of entries -/

/-- The fields of a finding, none of them given twice. -/
structure Problem.Has (ms : Record Json) (p : Problem) : Prop where
  line : Defaulted Once "line" (Nullable IsCount) none ms p.line
  column : Defaulted Once "column" (Nullable IsCount) none ms p.column
  fatal : Defaulted Once "fatal" IsFlag false ms p.fatal
  rule : Defaulted Once "ruleId" (Nullable IsText) none ms p.rule
  text : Required Once "message" IsText ms p.text

/-- The value has the shape of a finding. -/
def Problem.Shapes (v : Json) (p : Problem) : Prop :=
  ∃ ms, Fields ["line", "column", "fatal", "ruleId", "message"] v ms ∧ p.Has ms

/-- The fields of an entry, none of them given twice. -/
structure Entry.Has (ms : Record Json) (e : Entry) : Prop where
  path : Required Once "filePath" IsText ms e.path
  problems : Defaulted Once "messages" (Items Problem.Shapes) [] ms e.problems

/-- The value has the shape of an entry. -/
def Entry.Shapes (v : Json) (e : Entry) : Prop :=
  ∃ ms, Fields ["filePath", "messages"] v ms ∧ e.Has ms

/-- What is printed is an array of these entries. -/
def Prints (printed : String) (es : List Entry) : Prop :=
  ∃ v, Json.read? (Text.trim printed.toList) = some v ∧ Items Entry.Shapes v es

/-! ### What is shown of them -/

/-- All that the entry says is that ESLint passed over the file. -/
def Entry.IsNotice (e : Entry) : Prop :=
  ∃ p, e.problems = [p] ∧ p.fatal = false ∧ p.rule = none ∧ p.line = none ∧
    skipNotice.toList <+: p.text.toList

/-- The message says what the finding says. -/
structure Problem.ShownAs (p : Problem) (m : Message) : Prop where
  text : m.text = p.text
  rule : m.rule = p.rule
  line : m.line = max 1 (p.line.getD 1)
  column : m.column = max 1 (p.column.getD 1)
  fatal : m.severity = .fatal ↔ p.fatal = true

/-- The result says what the entry says. -/
structure Entry.ShownAs (e : Entry) (f : FileResult) : Prop where
  path : f.path = e.path
  messages : List.Forall₂ Problem.ShownAs e.problems f.messages

/-- The results are those of the entries in their order, without the notices. -/
inductive Shows : List Entry → List FileResult → Prop
  | nil : Shows [] []
  | passedOver {e : Entry} {es : List Entry} {fs : List FileResult} (he : e.IsNotice)
    (h : Shows es fs) : Shows (e :: es) fs
  | shown {e : Entry} {f : FileResult} {es : List Entry} {fs : List FileResult}
    (he : ¬ e.IsNotice) (hf : e.ShownAs f) (h : Shows es fs) : Shows (e :: es) (f :: fs)

/-! ### Reading -/

lemma reads_problem : Reads Problem.read? Problem.Shapes := by
  intro v p
  simp only [Problem.read?, Option.bind_eq_bind, Option.bind_eq_some_iff, Json.fields_iff,
    Json.withDefault_iff (Json.reads_optional Json.reads_count),
    Json.withDefault_iff (Json.reads_optional Json.reads_text),
    Json.withDefault_iff Json.reads_flag, Json.required_iff Json.reads_text]
  constructor
  · rintro ⟨ms, hms, line, hline, column, hcolumn, fatal, hfatal, rule, hrule, text, htext, h⟩
    cases h
    exact ⟨ms, hms, hline, hcolumn, hfatal, hrule, htext⟩
  · rintro ⟨ms, hms, h⟩
    exact ⟨ms, hms, _, h.line, _, h.column, _, h.fatal, _, h.rule, _, h.text, rfl⟩

lemma reads_entry : Reads Entry.read? Entry.Shapes := by
  intro v e
  simp only [Entry.read?, Option.bind_eq_bind, Option.bind_eq_some_iff, Json.fields_iff,
    Json.required_iff Json.reads_text, Json.withDefault_iff (Json.reads_listOf reads_problem)]
  constructor
  · rintro ⟨ms, hms, path, hpath, problems, hproblems, h⟩
    cases h
    exact ⟨ms, hms, hpath, hproblems⟩
  · rintro ⟨ms, hms, h⟩
    exact ⟨ms, hms, _, h.path, _, h.problems, rfl⟩

lemma entries_of_not_blank {cs : List Char} (h : Text.isBlankText cs = false) :
    entries cs =
      match Json.read? (Text.trim cs) with
      | none => .error .malformed
      | some v =>
        match Json.listOf? Entry.read? v with
        | none => .error .mismatched
        | some es => .ok es := by
  have htrim : Text.trim cs ≠ [] := by
    rw [Ne, Text.trim_eq_nil_iff, h]
    exact Bool.false_ne_true
  exact if_neg htrim

lemma entries_ok_iff {printed : String} (h : Text.isBlankText printed.toList = false)
    {es : List Entry} : entries printed.toList = .ok es ↔ Prints printed es := by
  simp only [entries_of_not_blank h, Prints]
  cases Json.read? (Text.trim printed.toList) with
  | none => simp
  | some v =>
    simp only [Option.some.injEq, exists_eq_left', ← Json.reads_listOf reads_entry v es]
    cases Json.listOf? Entry.read? v <;> simp

/-! ### Showing -/

lemma isSkipped_iff {e : Entry} : e.isSkipped = true ↔ e.IsNotice := by
  obtain ⟨path, problems⟩ := e
  rcases problems with _ | ⟨p, _ | ⟨q, problems⟩⟩
  · simp [Entry.isSkipped, Entry.IsNotice]
  · simp [Entry.isSkipped, Entry.IsNotice, and_assoc]
  · simp [Entry.isSkipped, Entry.IsNotice]

lemma shownAs_iff {p : Problem} {m : Message} : p.ShownAs m ↔ p.message = m := by
  obtain ⟨line, column, severity, text, rule⟩ := m
  constructor
  · rintro ⟨rfl, rfl, rfl, rfl, hfatal⟩
    cases hp : p.fatal <;> cases severity <;>
      simp_all [Problem.message, Message.located, max_comm]
  · intro h
    cases h
    refine ⟨rfl, rfl, max_comm _ _, max_comm _ _, ?_⟩
    simp

lemma result_iff {e : Entry} {f : FileResult} : e.ShownAs f ↔ e.result = f := by
  have hmessages : List.Forall₂ Problem.ShownAs e.problems f.messages ↔
      e.problems.map Problem.message = f.messages := forall₂_map_iff @shownAs_iff
  obtain ⟨path, messages⟩ := f
  constructor
  · rintro ⟨rfl, h⟩
    rw [Entry.result, hmessages.1 h]
  · intro h
    cases h
    exact ⟨rfl, hmessages.2 rfl⟩

lemma reportOf_passedOver {e : Entry} (h : e.IsNotice) (es : List Entry) :
    (reportOf (e :: es)).files = (reportOf es).files := by
  simp [reportOf, isSkipped_iff.2 h]

lemma reportOf_shown {e : Entry} (h : ¬ e.IsNotice) (es : List Entry) :
    (reportOf (e :: es)).files = e.result :: (reportOf es).files := by
  simp [reportOf, Bool.eq_false_of_not_eq_true (mt isSkipped_iff.1 h)]

lemma shows_reportOf (es : List Entry) : Shows es (reportOf es).files := by
  induction es with
  | nil => exact .nil
  | cons e es ih =>
    by_cases he : e.IsNotice
    · rw [reportOf_passedOver he]
      exact .passedOver he ih
    · rw [reportOf_shown he]
      exact .shown he (result_iff.2 rfl) ih

lemma Shows.files_eq {es : List Entry} {fs : List FileResult} (h : Shows es fs) :
    (reportOf es).files = fs := by
  induction h with
  | nil => rfl
  | passedOver he _ ih => rw [reportOf_passedOver he, ih]
  | shown he hf _ ih => rw [reportOf_shown he, result_iff.1 hf, ih]

/-! ### Fatal findings -/

lemma countP_fatal {ps : List Problem} {ms : List Message}
    (h : List.Forall₂ Problem.ShownAs ps ms) :
    ms.countP (·.severity = .fatal) = ps.countP (·.fatal) := by
  induction h with
  | nil => rfl
  | cons hp _ ih => simp [List.countP_cons, ih, hp.fatal]

lemma Shows.countP_fatal {es : List Entry} {fs : List FileResult} (h : Shows es fs) :
    (fs.flatMap (·.messages)).countP (·.severity = .fatal) =
      (es.flatMap (·.problems)).countP (·.fatal) := by
  induction h with
  | nil => rfl
  | passedOver he _ ih =>
    obtain ⟨p, hproblems, hfatal, -⟩ := he
    rw [List.flatMap_cons, List.countP_append, ih, hproblems]
    simp [hfatal]
  | shown _ hf _ ih =>
    rw [List.flatMap_cons, List.flatMap_cons, List.countP_append, List.countP_append, ih,
      Eslint.countP_fatal hf.messages]

lemma readReport_ok_iff {printed : String} (h : Text.isBlankText printed.toList = false)
    {r : Report} : readReport printed = .ok r ↔ ∃ es, Prints printed es ∧ Shows es r.files := by
  simp only [readReport, map_ok_iff, entries_ok_iff h]
  constructor
  · rintro ⟨es, hes, rfl⟩
    exact ⟨es, hes, shows_reportOf es⟩
  · rintro ⟨es, hes, hshows⟩
    exact ⟨es, hes, congrArg Report.mk hshows.files_eq⟩

/-- **The entries of a report.** A text that is not blank is read as a report exactly if it is an
array of entries, and the report shows those entries that are more than a notice, in their order
and with all their findings. It has as many fatal messages as there are fatal findings. With an
item that is no entry, there is no report. -/
theorem report_shows_entries (printed : String) (h : Text.isBlankText printed.toList = false) :
    (∀ r, readReport printed = .ok r ↔ ∃ es, Prints printed es ∧ Shows es r.files) ∧
    (∀ r es, readReport printed = .ok r → Prints printed es →
      (r.files.flatMap (·.messages)).countP (·.severity = .fatal) =
        (es.flatMap (·.problems)).countP (·.fatal)) ∧
    ∀ vs, Json.read? (Text.trim printed.toList) = some (.arr vs) →
      (∃ v ∈ vs, ∀ e, ¬ Entry.Shapes v e) → readReport printed = .error .mismatched := by
  refine ⟨fun r => readReport_ok_iff h, fun r es hr hes => ?_, fun vs hvs hnot => ?_⟩
  · obtain ⟨es', hes', hshows⟩ := (readReport_ok_iff h).1 hr
    have hsame := ((entries_ok_iff h).2 hes).symm.trans ((entries_ok_iff h).2 hes')
    obtain rfl : es = es' := Except.ok.inj hsame
    exact hshows.countP_fatal
  · obtain ⟨v, hv, hnot⟩ := hnot
    have hnone : Json.listOf? Entry.read? (.arr vs) = none := by
      refine Option.eq_none_iff_forall_ne_some.2 fun es hes => ?_
      cases (Json.reads_listOf reads_entry _ _).1 hes with
      | arr hitems =>
        obtain ⟨e, -, he⟩ := exists_of_forall₂ hitems hv
        exact hnot e he
    simp only [readReport, entries_of_not_blank h, hvs, hnone]
    rfl

/-- The notice with another finding, the notice alone, an entry without findings, and an entry in
the form of an array whose notice is fatal. -/
def mixedItems : List Json :=
  [.record [("filePath", .text "a.js"), ("messages", .arr
      [.record [("message", .text skipNotice)],
        .record [("ruleId", .null), ("fatal", .bool true), ("message", .text "No"),
          ("line", .nat 0), ("column", .null)]])],
    .record [("filePath", .text "b.js"), ("messages", .arr
      [.record [("column", .nat 1), ("message", .text (skipNotice ++ "."))]])],
    .record [("filePath", .text "c.js"), ("x", .arr [])],
    .arr [.text "d.js", .arr [.arr [.null, .nat 7, .bool true, .null, .text skipNotice]]]]

def mixedEntries : List Entry :=
  [⟨"a.js", [⟨none, none, false, none, skipNotice⟩, ⟨some 0, none, true, none, "No"⟩]⟩,
    ⟨"b.js", [⟨none, some 1, false, none, skipNotice ++ "."⟩]⟩,
    ⟨"c.js", []⟩,
    ⟨"d.js", [⟨none, some 7, true, none, skipNotice⟩]⟩]

def mixedReport : Report :=
  ⟨[⟨"a.js", [⟨1, 1, .warning, skipNotice, none⟩, ⟨1, 1, .fatal, "No", none⟩]⟩,
    ⟨"c.js", []⟩,
    ⟨"d.js", [⟨1, 7, .fatal, skipNotice, none⟩]⟩]⟩

/-- An entry without a path behind one that has the shape of an entry. -/
def brokenItems : List Json :=
  [.record [("filePath", .text "a.js")], .record [("messages", .arr [])]]

lemma read_rendered {vs : List Json} (h : (Json.arr vs).Plain) :
    Text.isBlankText (Json.arr vs).render.toList = false ∧
      Json.read? (Text.trim (Json.arr vs).render.toList) = some (.arr vs) := by
  obtain ⟨htrim, hread⟩ := @read_array_between vs [] _ [] rfl rfl (h.regular 0)
  rw [List.nil_append, List.append_nil] at htrim hread
  rw [Json.render, String.toList_ofList]
  exact ⟨Bool.eq_false_of_not_eq_true (mt Text.trim_eq_nil_iff.2 htrim), hread⟩

lemma plain_mixedItems : (Json.arr mixedItems).Plain := by
  have hfindings (ps : List Json) (h : ∀ p ∈ ps, p.Plain) (path : String) :
      (Json.record [("filePath", .text path), ("messages", .arr ps)]).Plain :=
    .record _ (List.forall_mem_cons.2 ⟨.text _, List.forall_mem_singleton.2 (.arr _ h)⟩)
  refine .arr _ ?_
  simp only [mixedItems, List.forall_mem_cons]
  refine ⟨hfindings _ ?_ _, hfindings _ ?_ _, .record _ ?_, .arr _ ?_, by simp⟩ <;>
    simp only [List.forall_mem_cons]
  · refine ⟨.record _ ?_, .record _ ?_, by simp⟩ <;> simp only [List.forall_mem_cons]
    · exact ⟨.text _, by simp⟩
    · exact ⟨.null, .bool _, .text _, .nat _, .null, by simp⟩
  · refine ⟨.record _ ?_, by simp⟩
    simp only [List.forall_mem_cons]
    exact ⟨.nat _, .text _, by simp⟩
  · exact ⟨.text _, .arr _ (by simp), by simp⟩
  · refine ⟨.text _, .arr _ (List.forall_mem_singleton.2 (.arr _ ?_)), by simp⟩
    simp only [List.forall_mem_cons]
    exact ⟨.null, .nat _, .bool _, .null, .text _, by simp⟩

lemma shows_mixedReport : Shows mixedEntries mixedReport.files :=
  .shown (by simp [Entry.IsNotice]) (result_iff.2 rfl) <|
  .passedOver ⟨_, rfl, rfl, rfl, rfl, by decide⟩ <|
  .shown (by simp [Entry.IsNotice]) (result_iff.2 rfl) <|
  .shown (by simp [Entry.IsNotice]) (result_iff.2 rfl) .nil

lemma not_shapes_brokenItem (e : Entry) :
    ¬ Entry.Shapes (.record [("messages", .arr [])]) e := by
  rintro ⟨ms, hms, hfields⟩
  obtain rfl := Json.fields_record_iff.1 hms
  obtain ⟨v, hv, -⟩ := hfields.path
  simp [Once, Json.under] at hv

theorem mixed_report_shows_entries :
    Text.isBlankText (Json.arr mixedItems).render.toList = false ∧
      readReport (Json.arr mixedItems).render = .ok mixedReport ∧
      (mixedReport.files.flatMap (·.messages)).countP (·.severity = .fatal) =
        (mixedEntries.flatMap (·.problems)).countP (·.fatal) ∧
      readReport (Json.arr brokenItems).render = .error .mismatched := by
  have hplain : (Json.arr brokenItems).Plain := by
    refine .arr _ ?_
    simp only [brokenItems, List.forall_mem_cons]
    refine ⟨.record _ ?_, .record _ ?_, by simp⟩
    · exact List.forall_mem_singleton.2 (.text _)
    · exact List.forall_mem_singleton.2 (.arr _ (by simp))
  obtain ⟨hblank, hread⟩ := read_rendered plain_mixedItems
  obtain ⟨hbroken, hreadBroken⟩ := read_rendered hplain
  obtain ⟨hok, hcount, -⟩ := report_shows_entries _ hblank
  obtain ⟨-, -, herror⟩ := report_shows_entries _ hbroken
  have hprints : Prints (Json.arr mixedItems).render mixedEntries :=
    ⟨_, hread, (Json.reads_listOf reads_entry _ _).1 (by decide +kernel)⟩
  have hreport : readReport (Json.arr mixedItems).render = .ok mixedReport :=
    (hok _).2 ⟨_, hprints, shows_mixedReport⟩
  exact ⟨hblank, hreport, hcount _ _ hreport hprints,
    herror _ hreadBroken ⟨_, List.mem_cons_of_mem _ (List.mem_singleton.2 rfl),
      not_shapes_brokenItem⟩⟩

end SiteLint.Eslint
