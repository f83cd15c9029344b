import SiteLint.Host.Description
import SiteLint.Program

/-!
The command line program.

It touches neither files nor processes: the machine it is to work on, and what the tools say, come
as a JSON document on the standard input.
-/

namespace SiteLint.Main

/-- Prints what a run leaves behind. -/
def put (t : Transcript) : IO UInt32 := do
  (← IO.getStdout).putStr t.output
  (← IO.getStderr).putStr t.errors
  pure (UInt32.ofNat t.exitCode)

/-- All lines of a stream. -/
partial def readAll (input : IO.FS.Stream) (read : String) : IO String := do
  let line ← input.getLine
  if line.isEmpty then pure read else readAll input (read ++ line)

/-- The machine and the answers on the standard input, when the command needs them. -/
def machine (args : List String) : IO (Option (Host × List Runner.Answer)) := do
  match CommandLine.read args with
  | .ok (.lint _ _) =>
    let text ← readAll (← IO.getStdin) ""
    pure do
      let v ← Json.read? text.toList
      some (← Host.read? v, ← Host.readAnswers? v)
  | _ => pure (some (⟨Entry.emptyTree, [], none, false, ⟨[slash]⟩⟩, []))

end SiteLint.Main

open SiteLint in
/-- Runs the program on its arguments. -/
def main (args : List String) : IO UInt32 := do
  match ← Main.machine args with
  | some (host, answers) => Main.put (Program.run host Failure.message Runner.scripted args answers).1
  | none =>
    (← IO.getStderr).putStrLn "the standard input does not describe a machine"
    pure 2
