import SiteLint.CodeSniffer.Report
import SiteLint.Configuration
import SiteLint.OutputFilter
import SiteLint.Target
import SiteLint.Text.Line
import SiteLint.Tool

/-!
Running PHP_CodeSniffer on targets.

The coding standard has to be there. Generated files are always passed over, and what the ignore
file lists besides. Old releases of the tool print an advertisement behind the report, which can be
cut off.
-/

namespace SiteLint.CodeSniffer

/-- The name of the pass in messages. -/
def passName : String := "PHP_CodeSniffer"

/-- How the advertisement starts. -/
def advertisement : String := "UPGRADE TO PHP_CODESNIFFER 2.0 TO FIX ERRORS AUTOMATICALLY"

/-- What is done to the output before it is read. -/
def filters (strip : Bool) : List OutputFilter :=
  if strip then [.truncateAt advertisement] else []

/-- The patterns in an ignore file: its lines without blanks around them, but for blank lines and
comments. -/
def patternLines (text : String) : List String :=
  (((Text.lines text.toList).map Text.trim).filter fun l => !l.isEmpty && l.head? ≠ some '#').map
    String.ofList

/-- What is to be passed over. -/
def ignorePatterns (host : Host) (ignore : Option Path) : List String :=
  generatedPatterns ++
    match ignore with
    | some p =>
      match host.readText p with
      | .ok text => patternLines text
      | .error _ => []
    | none => []

/-- The warnings that come with what is to be passed over. -/
def ignoreWarnings (host : Host) (ignore : Option Path) : List Warning :=
  match ignore with
  | some p => if (host.readText p).isOk then [] else [.ignoreFileUnreadable p]
  | none => []

/-- The command that runs the tool on targets. -/
def command (host : Host) (c : Configuration) (targets : List Target) :
    Except Failure ToolCommand :=
  if !host.pathExists c.phpcs.configPath then
    .error (.tool passName (.standardMissing c.phpcs.configPath))
  else .ok {
    program := c.tools.phpcs
    arguments :=
      ["--standard=" ++ c.phpcs.configPath.toString,
        "--report=json",
        "--extensions=" ++ String.intercalate "," c.phpcs.extensionList,
        "--ignore=" ++ String.intercalate "," (ignorePatterns host c.phpcs.ignorePath)] ++
      targets.map fun t => t.path.toString
    directory := some c.projectRoot }

/-- The report in the output. An output without a report is fine only for a tool that found
nothing to complain about. -/
def judge (strip : Bool) (o : ToolOutput) : Except Failure Report :=
  match o.status with
  | none => .error (.tool passName .signalled)
  | some n =>
    let text := OutputFilter.applyAll (filters strip) o.printed.toList
    if Text.isBlankText text then
      if n = 0 then .ok .empty else .error (.tool passName (.silent n))
    else (readReport (String.ofList text)).mapError (.tool passName)

/-- Runs the tool on targets. -/
def check {σ : Type} (host : Host) (c : Configuration) (run : Runner σ) (targets : List Target)
    (s : σ) : Except Failure Report × σ :=
  match command host c targets with
  | .error e => (.error e, s)
  | .ok cmd =>
    let (answer, s) := run cmd s
    (answer.bind (judge c.stripAdvertisement), s)

/-- The warnings of a run on targets. -/
def warnings (host : Host) (c : Configuration) : List Warning :=
  if host.pathExists c.phpcs.configPath then ignoreWarnings host c.phpcs.ignorePath else []

end SiteLint.CodeSniffer
