import SiteLint.Eslint.Report
import SiteLint.Proofs.DocumentText
import SiteLint.Proofs.DocumentValues
import SiteLint.Proofs.TextCut

/-!
Reports written in the way of ESLint.

Every report with proper lines and columns can be written as ESLint writes its own, and comes back
as it was. A finding that is written has a line, so that no file is taken for one that ESLint
passed over, not even when a message reads like the notice.
-/

namespace SiteLint

namespace Eslint

/-! ### The writer -/

def messageJson (m : Message) : Json :=
  .record [("line", .nat m.line), ("column", .nat m.column),
    ("fatal", .bool (m.severity = .fatal)), ("ruleId", m.rule.elim .null .text),
    ("message", .text m.text)]

def fileJson (f : FileResult) : Json :=
  .record [("filePath", .text f.path), ("messages", .arr (f.messages.map messageJson))]

/-- A report as ESLint writes it. -/
def reportJson (r : Report) : Json := .arr (r.files.map fileJson)

/-- The line and the column of a message are counts that can be read, from 1 on. -/
structure Counted (m : Message) : Prop where
  line_pos : 1 ≤ m.line
  line_lt : m.line < Text.countBound
  column_pos : 1 ≤ m.column
  column_lt : m.column < Text.countBound

/-- What a message is read as. -/
def problemOf (m : Message) : Problem :=
  ⟨some m.line, some m.column, m.severity = .fatal, m.rule, m.text⟩

def entryOf (f : FileResult) : Entry := ⟨f.path, f.messages.map problemOf⟩

/-! ### What is read -/

lemma optional_nat {n : Nat} (h : n < Text.countBound) :
    Json.optional? Json.count? (.nat n) = some (some n) := by
  have hpresent : (Json.nat n).present? = some (.nat n) := rfl
  rw [Json.optional_eq, hpresent, Option.elim_some, Json.count_nat h]
  rfl

lemma read_messageJson {m : Message} (h : Counted m) :
    Problem.read? (messageJson m) = some (problemOf m) := by
  simp [Problem.read?, messageJson, Json.fields_record, optional_nat h.line_lt,
    optional_nat h.column_lt, Json.optional_text, Json.flag?, problemOf]

lemma read_fileJson {f : FileResult} (h : ∀ m ∈ f.messages, Counted m) :
    Entry.read? (fileJson f) = some (entryOf f) := by
  have hmessages := Json.listOf_map_eq fun m hm => read_messageJson (h m hm)
  simp [Entry.read?, fileJson, Json.fields_record, hmessages, entryOf]

/-! ### What it stands for -/

lemma message_problemOf {m : Message} (h : Counted m) : (problemOf m).message = m := by
  obtain ⟨line, column, severity, text, rule⟩ := m
  have hline : max line 1 = line := Nat.max_eq_left h.line_pos
  have hcolumn : max column 1 = column := Nat.max_eq_left h.column_pos
  cases severity <;> simp [Problem.message, problemOf, Message.located, hline, hcolumn]

lemma not_isSkipped_entryOf (f : FileResult) : (entryOf f).isSkipped = false := by
  obtain ⟨path, messages⟩ := f
  rcases messages with _ | ⟨m, _ | ⟨n, messages⟩⟩ <;> simp [entryOf, Entry.isSkipped, problemOf]

lemma result_entryOf {f : FileResult} (h : ∀ m ∈ f.messages, Counted m) :
    (entryOf f).result = f := by
  have hmessages : f.messages.map (Problem.message ∘ problemOf) = f.messages := by
    exact (List.map_congr_left fun m hm => message_problemOf (h m hm)).trans (List.map_id _)
  simp [entryOf, Entry.result, hmessages]

lemma reportOf_entryOf {r : Report} (h : ∀ f ∈ r.files, ∀ m ∈ f.messages, Counted m) :
    reportOf (r.files.map entryOf) = r := by
  have hkept : (r.files.map entryOf).filter (!·.isSkipped) = r.files.map entryOf := by
    refine List.filter_eq_self.2 fun e he => ?_
    obtain ⟨f, -, rfl⟩ := List.mem_map.1 he
    simp [not_isSkipped_entryOf]
  have hfiles : r.files.map (Entry.result ∘ entryOf) = r.files := by
    exact (List.map_congr_left fun f hf => result_entryOf (h f hf)).trans (List.map_id _)
  rw [reportOf, hkept, List.map_map, hfiles]

/-! ### The text -/

lemma plain_messageJson (m : Message) : (messageJson m).Plain := by
  refine .record _ ?_
  simp only [List.forall_mem_cons]
  exact ⟨.nat _, .nat _, .bool _, .optional _, .text _, by simp⟩

lemma plain_fileJson (f : FileResult) : (fileJson f).Plain := by
  refine .record _ ?_
  simp only [List.forall_mem_cons]
  exact ⟨.text _, .arr _ (List.forall_mem_map.2 fun m _ => plain_messageJson m), by simp⟩

lemma plain_reportJson (r : Report) : (reportJson r).Plain :=
  .arr _ (List.forall_mem_map.2 fun f _ => plain_fileJson f)

lemma read_array_between {vs : List Json} {before text after : List Char}
    (hbefore : Text.isBlankText before = true) (hafter : Text.isBlankText after = true)
    (htext : Json.Written (.value (.arr vs)) text) :
    Text.trim (before ++ (text ++ after)) ≠ [] ∧
      Json.read? (Text.trim (before ++ (text ++ after))) = some (.arr vs) := by
  obtain ⟨inner, rfl⟩ := htext.brackets
  have htrim :
      Text.trim (before ++ ('[' :: (inner ++ [']']) ++ after)) = '[' :: (inner ++ [']']) := by
    simpa using Text.trim_between (c := '[') (d := ']') (by decide) (by decide) hbefore hafter
  rw [htrim]
  exact ⟨List.cons_ne_nil _ _, htext.read⟩

lemma entries_of_written {r : Report} (h : ∀ f ∈ r.files, ∀ m ∈ f.messages, Counted m)
    {before text after : List Char} (hbefore : Text.isBlankText before = true)
    (hafter : Text.isBlankText after = true) (htext : Json.Written (.value (reportJson r)) text) :
    entries (before ++ (text ++ after)) = .ok (r.files.map entryOf) := by
  obtain ⟨htrim, hread⟩ := read_array_between hbefore hafter htext
  have hfiles : (Json.arr (r.files.map fileJson)).listOf? Entry.read? =
      some (r.files.map entryOf) := Json.listOf_map_eq fun f hf => read_fileJson (h f hf)
  simp only [entries, htrim, hread, hfiles, if_false]

/-- **Round trip.** However a report is written in the way of ESLint, with whatever blanks around
it, it is read as it was; and it can be written. -/
theorem report_written_is_read (r : Report) (h : ∀ f ∈ r.files, ∀ m ∈ f.messages, Counted m) :
    (∀ before text after : String, Text.isBlankText before.toList = true →
      Text.isBlankText after.toList = true →
      Json.Written (.value (reportJson r)) text.toList →
      readReport (before ++ text ++ after) = .ok r) ∧
    Json.Written (.value (reportJson r)) (reportJson r).render.toList := by
  refine ⟨fun before text after hbefore hafter htext => ?_, ?_⟩
  · have hentries := entries_of_written h hbefore hafter htext
    rw [readReport, String.toList_append, String.toList_append, List.append_assoc, hentries]
    rw [Except.map, reportOf_entryOf h]
  · rw [Json.render, String.toList_ofList]
    exact (plain_reportJson r).regular 0

/-- A report whose only message reads like the notice about a file that was passed over, far down
in the file. -/
def noticeReport : Report :=
  ⟨[⟨"a \"b\".js", [⟨Text.countBound - 1, 1, .warning, skipNotice, none⟩]⟩, ⟨"", []⟩]⟩

/-- The message is kept, though it reads like the notice. -/
theorem notice_written_is_read :
    readReport ("\u00a0\n" ++ (reportJson noticeReport).render ++ "\u3000") =
      .ok noticeReport := by
  have hcounted : ∀ f ∈ noticeReport.files, ∀ m ∈ f.messages, Counted m := by
    simp only [noticeReport, List.forall_mem_cons]
    exact ⟨⟨⟨by decide, by decide, by decide, by decide⟩, by simp⟩, by simp, by simp⟩
  obtain ⟨hread, hwritten⟩ := report_written_is_read noticeReport hcounted
  exact hread _ _ _ (by decide) (by decide) hwritten

end Eslint

end SiteLint
