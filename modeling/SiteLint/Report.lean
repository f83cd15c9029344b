/-!
What the linters found, in one form for all of them.
-/

namespace SiteLint

/-- Only what keeps a file from being read at all is fatal. -/
inductive Severity
  | warning
  | fatal
  deriving DecidableEq, Repr

/-- One finding at a line and column, both counted from 1. -/
structure Message where
  line : Nat
  column : Nat
  severity : Severity
  text : String
  rule : Option String
  deriving DecidableEq, Repr

/-- A message at a place; a tool that counts from 0 is taken to mean 1. -/
def Message.located (line column : Nat) (severity : Severity) (text : String)
    (rule : Option String) : Message :=
  ⟨max line 1, max column 1, severity, text, rule⟩

/-- The findings for one file, in the order of the tool. -/
structure FileResult where
  path : String
  messages : List Message
  deriving DecidableEq, Repr

/-- The files a linter looked at, in its order. -/
structure Report where
  files : List FileResult
  deriving DecidableEq, Repr

namespace Report

def empty : Report := ⟨[]⟩

def messageCount (r : Report) : Nat := r.files.foldr (fun f n => f.messages.length + n) 0

end Report

end SiteLint
