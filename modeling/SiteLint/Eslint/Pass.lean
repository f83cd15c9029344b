import SiteLint.Configuration
import SiteLint.Eslint.Report
import SiteLint.Target
import SiteLint.Text.Line
import SiteLint.Tool

/-!
Running ESLint on targets.

The rule-set has to be there. An ignore file that is missing is left out; there is a warning for
it, unless it is one that the plugin would have brought along.
-/

namespace SiteLint.Eslint

/-- The name of the pass in messages. -/
def passName : String := "ESLint"

/-- The warnings that come with a command. -/
def commandWarnings (host : Host) (c : Configuration) : List Warning :=
  match c.eslint.ignorePath with
  | some p =>
    if host.isFile p || p.startsWith c.pluginDirectory then [] else [.ignoreFileMissing p]
  | none => []

/-- The arguments that name the ignore file, if it is there. -/
def ignoreArguments (host : Host) (c : LinterConfig) : List String :=
  match c.ignorePath with
  | some p => if host.isFile p then ["--ignore-path", p.toString] else []
  | none => []

/-- The extensions as ESLint wants them. -/
def extensionArgument (c : LinterConfig) : String :=
  String.intercalate "," (c.extensionList.map ("." ++ ·))

/-- The command that runs ESLint on targets. -/
def command (host : Host) (c : Configuration) (targets : List Target) :
    Except Failure ToolCommand :=
  if !host.isFile c.eslint.configPath then
    .error (.tool passName (.ruleSetMissing c.eslint.configPath))
  else .ok {
    program := c.tools.eslint
    arguments :=
      ["--config", c.eslint.configPath.toString, "--env", "browser", "--format", "json", "--ext",
        extensionArgument c.eslint] ++
      ignoreArguments host c.eslint ++ targets.map fun t => t.path.toString
    directory := some c.projectRoot }

/-- The first line that is not blank. -/
def firstLine (printed : String) : String :=
  match (Text.lines printed.toList).find? fun l => !Text.isBlankText l with
  | some l => String.ofList l
  | none => "no output"

/-- The report in the output of ESLint, which ends with 0 or 1 when it has done its work. -/
def judge (o : ToolOutput) : Except Failure Report :=
  match o.status with
  | none => .error (.tool passName .signalled)
  | some n =>
    if n = 0 ∨ n = 1 then
      (readReport o.printed).mapError fun fault => .tool passName (.unreadableReport fault)
    else .error (.tool passName (.badStatus n (firstLine o.printed)))

/-- Runs ESLint on targets. -/
def check {σ : Type} (host : Host) (c : Configuration) (run : Runner σ) (targets : List Target)
    (s : σ) : Except Failure Report × σ :=
  match command host c targets with
  | .error e => (.error e, s)
  | .ok cmd =>
    let (answer, s) := run cmd s
    (answer.bind judge, s)

/-- The warnings of a run on targets. -/
def warnings (host : Host) (c : Configuration) : List Warning :=
  if host.isFile c.eslint.configPath then commandWarnings host c else []

end SiteLint.Eslint
