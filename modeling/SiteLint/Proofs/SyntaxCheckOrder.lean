import SiteLint.Proofs.CallSpans
import SiteLint.Proofs.ReportRules

/-!
How far a syntax check gets, and what it reports.

The commands are those for the files of the targets, in order. What PHP would answer to all of
them, one after the other, decides everything: the calls end behind the first answer that keeps a
check from being completed, and a report pairs each file with its own answer. Commands and reports
give a file by its text. They give back just the files that were found when these are texts; a file
that is none is given with U+FFFD for what is ill-formed in its path.
-/

namespace SiteLint

variable {σ : Type}

/-- The answers to commands that are run one after the other. -/
def Runner.answers (run : Runner σ) : List ToolCommand → σ → List (Except Failure ToolOutput)
  | [], _ => []
  | cmd :: cmds, s => (run cmd s).1 :: answers run cmds (run cmd s).2

namespace PhpSyntax

/-- What a completed check of a file is reported as: nothing when PHP ended with status 0, and one
fatal message that is read off what it printed otherwise. -/
inductive Verdict (file : Path) : Except Failure ToolOutput → FileResult → Prop
  | clean {o : ToolOutput} (h : o.status = some 0) : Verdict file (.ok o) ⟨file.toString, []⟩
  | broken {o : ToolOutput} {n : Int} (h : o.status = some n) (hn : n ≠ 0)
    (hfatal : (readMessage o.printed n).severity = .fatal) :
    Verdict file (.ok o) ⟨file.toString, [readMessage o.printed n]⟩

variable (c : Configuration) (run : Runner σ)

lemma Verdict.path {file : Path} {answer : Except Failure ToolOutput} {f : FileResult}
    (h : Verdict file answer f) : f.path = file.toString := by
  cases h <;> rfl

end PhpSyntax

end SiteLint
