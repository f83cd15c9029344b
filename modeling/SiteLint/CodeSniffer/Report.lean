import SiteLint.CodeSniffer.Generated
import SiteLint.Failure
import SiteLint.Json.Shape
import SiteLint.Report
import SiteLint.Text.Blank

/-!
The JSON report of PHP_CodeSniffer.

It is an object whose member `files` maps each path to what was found there. The order of the
paths is kept. A generated file is left out before its entry is looked at, so its entry may hold
anything.
-/

namespace SiteLint.CodeSniffer

/-- A finding as PHP_CodeSniffer writes it. -/
structure Violation where
  text : String
  source : Option String
  line : Nat
  column : Nat
  deriving DecidableEq, Repr

/-- Reads a finding. -/
def Violation.read? (v : Json) : Option Violation := do
  let ms ← v.fields? ["message", "source", "line", "column"]
  let text ← Json.required? "message" Json.text? ms
  let source ← Json.withDefault? "source" none (Json.optional? Json.text?) ms
  let line ← Json.withDefault? "line" 0 Json.count? ms
  let column ← Json.withDefault? "column" 0 Json.count? ms
  some ⟨text, source, line, column⟩

/-- Reads the findings of one file. -/
def violations? (v : Json) : Option (List Violation) := do
  let ms ← v.fields? ["messages"]
  Json.withDefault? "messages" [] (Json.listOf? Violation.read?) ms

def Violation.message (v : Violation) : Message :=
  Message.located v.line v.column .warning v.text v.source

/-- The files of a report with their entries, each path once. The entries lie two levels deep in
the document and are kept whole. -/
def fileEntries? (v : Json) : Option (Record Json) := do
  let ms ← v.fields? ["files"]
  match ← Record.field? ["files"] ms with
  | none => some []
  | some (.obj files) => do
    let files ← Json.soundMembers? (Json.depthLimit - 2) files
    (Json.obj files).members?
  | some _ => none

/-- The result for a file, from its entry. -/
def fileResult (entry : String × Json) : Except ToolFault FileResult :=
  match violations? entry.2 with
  | some vs => .ok ⟨entry.1, vs.map Violation.message⟩
  | none => .error (.unreadableEntry .mismatched)

/-- The report that entries stand for, without those of generated files. -/
def reportOf (entries : Record Json) : Except ToolFault Report :=
  ((entries.filter fun e => !isGenerated e.1).mapM fileResult).map Report.mk

/-- The report in what PHP_CodeSniffer printed. -/
def readReport (printed : String) : Except ToolFault Report :=
  match Json.read? (Text.trim printed.toList) with
  | none => .error (.unreadableReport .malformed)
  | some v =>
    match fileEntries? v with
    | none => .error (.unreadableReport .mismatched)
    | some entries => reportOf entries

end SiteLint.CodeSniffer
