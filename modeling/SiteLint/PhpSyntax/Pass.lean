import SiteLint.Configuration
import SiteLint.PhpSyntax.Output
import SiteLint.Target
import SiteLint.Tool

/-!
Checking the syntax of PHP files, one after the other.

The first file whose check cannot be completed ends the pass without a report.
-/

namespace SiteLint.PhpSyntax

/-- The name of the pass in messages. -/
def passName : String := "PHP syntax check"

/-- The command that checks a file. -/
def command (c : Configuration) (file : Path) : ToolCommand :=
  ⟨c.tools.php, ["-l", file.toString], some c.projectRoot⟩

/-- The findings in the output for a file. -/
def judge (o : ToolOutput) : Except Failure (List Message) :=
  match o.status with
  | none => .error (.tool passName .signalled)
  | some n => .ok (if n = 0 then [] else [readMessage o.printed n])

/-- Checks files one after the other. -/
def checkFiles {σ : Type} (c : Configuration) (run : Runner σ) :
    List Path → σ → Except Failure (List FileResult) × σ
  | [], s => (.ok [], s)
  | file :: files, s =>
    let (answer, s) := run (command c file) s
    match answer.bind judge with
    | .error e => (.error e, s)
    | .ok messages =>
      let (rest, s) := checkFiles c run files s
      (rest.map (⟨file.toString, messages⟩ :: ·), s)

/-- Checks the files of targets. -/
def check {σ : Type} (host : Host) (c : Configuration) (run : Runner σ) (targets : List Target)
    (s : σ) : Except Failure Report × σ :=
  let (results, s) := checkFiles c run (Target.expand host c.phpcs targets) s
  (results.map Report.mk, s)

end SiteLint.PhpSyntax
