import SiteLint.CommandLine
import SiteLint.Console.Document
import SiteLint.Console.Lines

/-!
The whole program, from the command line to what it prints and its exit status.

With JSON output there is one document on the standard output and, unless the set-up fails, nothing
else anywhere. Otherwise reports go to the standard output, and all that is said around them to the
error output.
-/

namespace SiteLint

/-- What a run of the program leaves behind. -/
structure Transcript where
  exitCode : Nat
  output : String
  errors : String
  deriving DecidableEq, Repr

namespace Program

/-- The name of the program. -/
def name : String := "aquifer-coder"

def version : String := "0.1.0"

/-- Lines for the standard output and the error output. -/
structure Lines where
  output : List String
  errors : List String
  deriving DecidableEq, Repr

namespace Lines

def none : Lines := ⟨[], []⟩

def out (ls : List String) : Lines := ⟨ls, []⟩

def err (l : String) : Lines := ⟨[], [l]⟩

def append (a b : Lines) : Lines := ⟨a.output ++ b.output, a.errors ++ b.errors⟩

end Lines

/-- Lines as a text; each one is ended. -/
def textOf (ls : List String) : String := String.join (ls.map (· ++ "\n"))

def transcript (exitCode : Nat) (ls : Lines) : Transcript :=
  ⟨exitCode, textOf ls.output, textOf ls.errors⟩

/-- Reports are coloured in this form of output. -/
def colours (host : Host) (output : String) : Bool := output ≠ "json" && !host.noColor

/-- What stands in front of a line, in bold letters of a colour. -/
def label (host : Host) (colour word : String) : String :=
  (Console.Style.bold colour).paint (!host.noColor) word

def errorLabel (host : Host) : String := label host "31" "error:"

def warningLabel (host : Host) : String := label host "33" "warning:"

def noteLabel (host : Host) : String := label host "36" "note:"

def infoLabel (host : Host) : String := label host "34" "info:"

/-- The lines for an event, when the output is plain text. `words` puts a failure into words. -/
def eventLines (host : Host) (words : Failure → String) (output : String) : Event → Lines
  | .passStarted p => .err (infoLabel host ++ " " ++ p.banner)
  | .passFinished _ r =>
    .out (Console.reportLines host.workingPath (colours host output) r)
  | .passFailed _ e => .err (errorLabel host ++ " " ++ words e)
  | .resolveFailed _ e => .err (errorLabel host ++ " " ++ words e)
  | .skipped _ e => .err (warningLabel host ++ " " ++ words e ++ "; skipping.")
  | .noTargets d =>
    .err (infoLabel host ++ " No targets defined for " ++ d.label ++ "; nothing to lint.")
  | .noMatches d =>
    .err (infoLabel host ++ " No files matched the configured " ++ d.label ++
      " targets; nothing to lint.")

/-- The line that tells that no settings were found. -/
def settingsNote (host : Host) (c : Configuration) : Lines :=
  if c.settingsPath.isNone then
    .err (noteLabel host ++ " No " ++ name ++ " settings found; using defaults.")
  else .none

/-- The document of a run as a text. -/
def document (words : Failure → String) (es : List Event) (totals : Summary) : String :=
  (Console.runJson (Run.reports es) ((Run.failures es).map words) totals).render

/-- All lines of a run. -/
def runLines (host : Host) (words : Failure → String) (c : Configuration) (es : List Event)
    (totals : Summary) : Lines :=
  if c.wantsJson then .out [document words es totals]
  else (es.map (eventLines host words c.output)).foldl .append (settingsNote host c)

/-- Runs a command that lints. -/
def lint {σ : Type} (host : Host) (words : Failure → String) (tools : Runner σ) (cmd : Command)
    (args : CommandLine.Arguments) (s : σ) : Transcript × σ :=
  match Configuration.resolve host args.request with
  | .error e => (transcript e.exitCode (.err (errorLabel host ++ " " ++ words e)), s)
  | .ok c =>
    let r := Run.perform (fun _ => host) c cmd args.target tools s
    (transcript (r.totals.exitCode c.failOnViolations) (runLines host words c r.events r.totals),
      r.memory)

/-- The program on a command line. The texts about usage are not given. -/
def run {σ : Type} (host : Host) (words : Failure → String) (tools : Runner σ)
    (args : List String) (s : σ) : Transcript × σ :=
  match CommandLine.read args with
  | .ok .version => (transcript 0 (.out [version]), s)
  | .ok (.lint cmd a) => lint host words tools cmd a s
  | .error .versionWanted => (transcript 0 (.out [name ++ " " ++ version]), s)
  | .error e => (transcript e.exitCode .none, s)

end Program

end SiteLint
