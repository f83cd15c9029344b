import SiteLint.Failure

/-!
Commands that are run, and who runs them.

A runner takes a command and gives what the tool printed and its exit status. It may remember
things from one command to the next; what it remembers is passed along.
-/

namespace SiteLint

/-- A program with its arguments, run in a directory when one is given. -/
structure ToolCommand where
  program : String
  arguments : List String
  directory : Option Path
  deriving DecidableEq, Repr

/-- What a tool printed and how it ended; a tool that a signal ended has no exit status. -/
structure ToolOutput where
  printed : String
  status : Option Int
  deriving DecidableEq, Repr

namespace ToolCommand

def ofProgram (program : String) : ToolCommand := ⟨program, [], none⟩

def argument (c : ToolCommand) (a : String) : ToolCommand :=
  { c with arguments := c.arguments ++ [a] }

def argumentList (c : ToolCommand) (as : List String) : ToolCommand :=
  { c with arguments := c.arguments ++ as }

def inDirectory (c : ToolCommand) (dir : Path) : ToolCommand := { c with directory := some dir }

/-- The command on one line. -/
def display (c : ToolCommand) : String := String.intercalate " " (c.program :: c.arguments)

end ToolCommand

/-- Runs commands, with a memory of type `σ`. -/
abbrev Runner (σ : Type) := ToolCommand → σ → Except Failure ToolOutput × σ

namespace Runner

/-- Remembers the commands as well, latest first. -/
def recorded {σ : Type} (run : Runner σ) : Runner (σ × List ToolCommand) := fun c (s, calls) =>
  let (r, s) := run c s
  (r, s, c :: calls)

/-- An answer that was fixed beforehand. -/
inductive Answer
  | output (o : ToolOutput)
  | failure (text : String)
  deriving DecidableEq, Repr

/-- Gives one answer after the other, and a failure when there are no more. -/
def scripted : Runner (List Answer) := fun c answers =>
  match answers with
  | [] => (.error (.tool c.program (.other "no scripted response")), [])
  | .output o :: rest => (.ok o, rest)
  | .failure text :: rest => (.error (.tool c.program (.other text)), rest)

end Runner

end SiteLint
