import SiteLint.Console.Document
import SiteLint.Json.Shape
import SiteLint.Proofs.DocumentLookup
import SiteLint.Proofs.DocumentText

/-!
The run that a document tells of.

A reader of the document gets back all there was to tell: the reports of the passes in order, with
every message, the errors and the totals. So no two runs have the same document.
-/

namespace SiteLint

/-! ### Numbers -/

/-- The number that is written without sign, point and power of ten. -/
def Json.natural? : Json → Option Nat
  | num n => if n.isWhole && !n.negative then Text.readDigits 10 n.whole else none
  | _ => none

lemma Json.natural_nat (n : Nat) : (nat n).natural? = some n := by
  simp [natural?, nat, Text.Numeral.ofNat, Text.Numeral.isWhole, readDigits_toDigits]

namespace Console

/-! ### The reader -/

/-- The severity that a document calls by a name. -/
def severityNamed? : String → Option Severity
  | "warning" => some .warning
  | "fatal" => some .fatal
  | _ => none

/-- The pass that a document calls by a name. -/
def passNamed? : String → Option Pass
  | "eslint" => some .eslint
  | "php-syntax" => some .phpSyntax
  | "php-standards" => some .phpStandards
  | _ => none

/-- A message; a rule that is not there is none. -/
def readMessage? (v : Json) : Option Message := do
  let ms ← v.members?
  let line ← Json.required? "line" Json.natural? ms
  let column ← Json.required? "column" Json.natural? ms
  let severity ← Json.required? "severity" (fun v => v.text?.bind severityNamed?) ms
  let text ← Json.required? "text" Json.text? ms
  let rule ← Json.withDefault? "rule" none (fun v => v.text?.map some) ms
  some ⟨line, column, severity, text, rule⟩

def readFile? (v : Json) : Option FileResult := do
  let ms ← v.members?
  let path ← Json.required? "file_path" Json.text? ms
  let messages ← Json.required? "messages" (Json.listOf? readMessage?) ms
  some ⟨path, messages⟩

def readReport? (v : Json) : Option (Pass × Report) := do
  let ms ← v.members?
  let pass ← Json.required? "pass" (fun v => v.text?.bind passNamed?) ms
  let files ← Json.required? "files" (Json.listOf? readFile?) ms
  some (pass, ⟨files⟩)

def readSummary? (v : Json) : Option Summary := do
  let ms ← v.members?
  let files ← Json.required? "files" Json.natural? ms
  let messages ← Json.required? "messages" Json.natural? ms
  let errors ← Json.required? "errors" Json.natural? ms
  some ⟨files, messages, errors⟩

/-- The reports, the errors and the totals that a document tells of. -/
def readRun? (v : Json) : Option (List (Pass × Report) × List String × Summary) := do
  let ms ← v.members?
  let reports ← Json.required? "reports" (Json.listOf? readReport?) ms
  let errors ← Json.required? "errors" (Json.listOf? Json.text?) ms
  let summary ← Json.required? "summary" readSummary? ms
  some (reports, errors, summary)

/-! ### What it reads -/

lemma severityNamed_severityKey (s : Severity) : severityNamed? (severityKey s) = some s := by
  cases s <;> rfl

lemma passNamed_key (p : Pass) : passNamed? p.key = some p := by
  cases p <;> rfl

lemma readMessage_messageJson (m : Message) : readMessage? (messageJson m) = some m := by
  obtain ⟨line, column, severity, text, rule⟩ := m
  cases rule with
  | none =>
    simp [readMessage?, messageJson, Json.members_record, Json.natural_nat,
      severityNamed_severityKey]
  | some r =>
    simp [readMessage?, messageJson, Json.members_record, Json.natural_nat,
      severityNamed_severityKey]

lemma readFile_fileJson (f : FileResult) : readFile? (fileJson f) = some f := by
  simp [readFile?, fileJson, Json.members_record, Json.listOf_map readMessage_messageJson]

lemma readReport_reportJson (x : Pass × Report) : readReport? (reportJson x.1 x.2) = some x := by
  simp [readReport?, reportJson, Json.members_record, passNamed_key,
    Json.listOf_map readFile_fileJson]

lemma readSummary_summaryJson (t : Summary) : readSummary? (summaryJson t) = some t := by
  simp [readSummary?, summaryJson, Json.members_record, Json.natural_nat]

lemma readRun_runJson (reports : List (Pass × Report)) (errors : List String) (t : Summary) :
    readRun? (runJson reports errors t) = some (reports, errors, t) := by
  simp [readRun?, runJson, Json.members_record, Json.listOf_map readReport_reportJson,
    Json.listOf_map Json.text_text, readSummary_summaryJson]

/-! ### The document -/

lemma plain_messageJson (m : Message) : (messageJson m).Plain := by
  refine .record _ ?_
  rw [List.forall_mem_append]
  constructor
  · simp only [List.forall_mem_cons]
    exact ⟨.nat _, .nat _, .text _, .text _, by simp⟩
  · cases m.rule with
    | none => simp
    | some r => simpa using Json.Plain.text r

lemma plain_fileJson (f : FileResult) : (fileJson f).Plain := by
  refine .record _ ?_
  simp only [List.forall_mem_cons]
  exact ⟨.text _, .arr _ (List.forall_mem_map.2 fun m _ => plain_messageJson m), by simp⟩

lemma plain_reportJson (p : Pass) (r : Report) : (reportJson p r).Plain := by
  refine .record _ ?_
  simp only [List.forall_mem_cons]
  exact ⟨.text _, .arr _ (List.forall_mem_map.2 fun f _ => plain_fileJson f), by simp⟩

lemma plain_summaryJson (t : Summary) : (summaryJson t).Plain := by
  refine .record _ ?_
  simp only [List.forall_mem_cons]
  exact ⟨.nat _, .nat _, .nat _, by simp⟩

lemma plain_runJson (reports : List (Pass × Report)) (errors : List String) (t : Summary) :
    (runJson reports errors t).Plain := by
  refine .record _ ?_
  simp only [List.forall_mem_cons]
  exact ⟨.arr _ (List.forall_mem_map.2 fun x _ => plain_reportJson x.1 x.2),
    .arr _ (List.forall_mem_map.2 fun e _ => .text e), plain_summaryJson t, by simp⟩

/-- **Documents are read back.** The text of a document is one that can be read, and it tells of
the run it was written for. So two runs with the same document are the same. -/
theorem run_read_back (reports : List (Pass × Report)) (errors : List String) (t : Summary) :
    (Json.read? (runJson reports errors t).render.toList).bind readRun? =
        some (reports, errors, t) ∧
      ∀ reports' errors' t',
        (runJson reports' errors' t').render = (runJson reports errors t).render ↔
          reports' = reports ∧ errors' = errors ∧ t' = t := by
  have hread (reports : List (Pass × Report)) (errors : List String) (t : Summary) :
      (Json.read? (runJson reports errors t).render.toList).bind readRun? =
        some (reports, errors, t) := by
    rw [Json.render, String.toList_ofList, (plain_runJson reports errors t).read_write,
      Option.bind_some, readRun_runJson]
  refine ⟨hread reports errors t, fun reports' errors' t' => ⟨fun hsame => ?_, ?_⟩⟩
  · have htold := hread reports' errors' t'
    rw [hsame, hread reports errors t] at htold
    cases htold
    exact ⟨rfl, rfl, rfl⟩
  · rintro ⟨rfl, rfl, rfl⟩
    rfl

end Console

end SiteLint
