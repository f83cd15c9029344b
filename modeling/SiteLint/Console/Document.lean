import SiteLint.Json.Writer
import SiteLint.Run

/-!
A run as one JSON document: the reports of its passes, its errors and its totals.
-/

namespace SiteLint.Console

/-- What a document calls a severity. -/
def severityKey : Severity → String
  | .warning => "warning"
  | .fatal => "fatal"

/-- A message; the rule is left out when there is none. -/
def messageJson (m : Message) : Json :=
  .record
    ([("line", .nat m.line), ("column", .nat m.column), ("severity", .text (severityKey m.severity)),
      ("text", .text m.text)] ++
      match m.rule with
      | some r => [("rule", .text r)]
      | none => [])

def fileJson (f : FileResult) : Json :=
  .record [("file_path", .text f.path), ("messages", .arr (f.messages.map messageJson))]

def reportJson (p : Pass) (r : Report) : Json :=
  .record [("pass", .text p.key), ("files", .arr (r.files.map fileJson))]

def summaryJson (t : Summary) : Json :=
  .record [("files", .nat t.files), ("messages", .nat t.messages), ("errors", .nat t.errors)]

/-- The document of a run. -/
def runJson (reports : List (Pass × Report)) (errors : List String) (t : Summary) : Json :=
  .record
    [("reports", .arr (reports.map fun (p, r) => reportJson p r)),
      ("errors", .arr (errors.map .text)),
      ("summary", summaryJson t)]

end SiteLint.Console
