import SiteLint.Failure
import SiteLint.Json.Shape
import SiteLint.Report
import SiteLint.Text.Blank

/-!
The JSON report of ESLint.

It is an array with one entry for each file. An entry says which file it is for and lists what
was found there. A file that ESLint passed over has one entry as well, whose only content is a
notice; such entries are left out.
-/

namespace SiteLint.Eslint

/-- A finding as ESLint writes it. Findings about a whole file have no line and no column. -/
structure Problem where
  line : Option Nat
  column : Option Nat
  fatal : Bool
  rule : Option String
  text : String
  deriving DecidableEq, Repr

/-- The entry of one file. -/
structure Entry where
  path : String
  problems : List Problem
  deriving DecidableEq, Repr

/-- How the notice about a file that was passed over starts. -/
def skipNotice : String := "File ignored because of a matching ignore pattern"

/-- Reads a finding. -/
def Problem.read? (v : Json) : Option Problem := do
  let ms ← v.fields? ["line", "column", "fatal", "ruleId", "message"]
  let line ← Json.withDefault? "line" none (Json.optional? Json.count?) ms
  let column ← Json.withDefault? "column" none (Json.optional? Json.count?) ms
  let fatal ← Json.withDefault? "fatal" false Json.flag? ms
  let rule ← Json.withDefault? "ruleId" none (Json.optional? Json.text?) ms
  let text ← Json.required? "message" Json.text? ms
  some ⟨line, column, fatal, rule, text⟩

/-- Reads the entry of a file. -/
def Entry.read? (v : Json) : Option Entry := do
  let ms ← v.fields? ["filePath", "messages"]
  let path ← Json.required? "filePath" Json.text? ms
  let problems ← Json.withDefault? "messages" [] (Json.listOf? Problem.read?) ms
  some ⟨path, problems⟩

/-- The entry only says that ESLint passed over the file. -/
def Entry.isSkipped (e : Entry) : Bool :=
  match e.problems with
  | [p] => !p.fatal && p.rule.isNone && p.line.isNone &&
      skipNotice.toList.isPrefixOf p.text.toList
  | _ => false

def Problem.message (p : Problem) : Message :=
  Message.located (p.line.getD 1) (p.column.getD 1) (if p.fatal then .fatal else .warning)
    p.text p.rule

def Entry.result (e : Entry) : FileResult := ⟨e.path, e.problems.map Problem.message⟩

/-- The report that entries stand for. -/
def reportOf (es : List Entry) : Report := ⟨(es.filter (!·.isSkipped)).map Entry.result⟩

/-- The entries in what ESLint printed; nothing printed means no entries. -/
def entries (printed : List Char) : Except ReadFault (List Entry) :=
  let cs := Text.trim printed
  if cs = [] then .ok []
  else
    match Json.read? cs with
    | none => .error .malformed
    | some v =>
      match Json.listOf? Entry.read? v with
      | none => .error .mismatched
      | some es => .ok es

/-- The report in what ESLint printed. -/
def readReport (printed : String) : Except ReadFault Report :=
  (entries printed.toList).map reportOf

end SiteLint.Eslint
