import SiteLint.Run.Plan

/-!
Running a command.

The targets of each domain are looked up once, then its passes run in order, and the totals are
kept on the way. What happens is told at once, event by event. A domain whose targets cannot be had
does not keep the other one from running, nor does a pass that fails.
-/

namespace SiteLint

/-- Something that happens in a run. -/
inductive Event
  | passStarted (pass : Pass)
  | passFinished (pass : Pass) (report : Report)
  | passFailed (pass : Pass) (failure : Failure)
  /-- No targets are configured. -/
  | noTargets (domain : Domain)
  /-- Targets are configured, but there are no files for them. -/
  | noMatches (domain : Domain)
  /-- A combined run passes over a domain that does not handle the target. -/
  | skipped (domain : Domain) (failure : Failure)
  | resolveFailed (domain : Domain) (failure : Failure)
  deriving DecidableEq, Repr

/-- Totals over all passes of a run. -/
structure Summary where
  files : Nat
  messages : Nat
  errors : Nat
  deriving DecidableEq, Repr

namespace Summary

def zero : Summary := ⟨0, 0, 0⟩

/-- The totals after one more error. -/
def addError (t : Summary) : Summary := { t with errors := t.errors + 1 }

/-- The totals after a pass has ended. -/
def addPass (t : Summary) : Except Failure Report → Summary
  | .ok r => { t with files := t.files + r.files.length, messages := t.messages + r.messageCount }
  | .error _ => t.addError

/-- The exit status of a run: 2 after an error, 1 after findings if these count, else 0. -/
def exitCode (t : Summary) (failOnViolations : Bool) : Nat :=
  if t.errors > 0 then 2
  else if failOnViolations && t.messages > 0 then 1
  else 0

end Summary

/-- What a run works with. All that can change on the way is in the state: the files, what the
runner remembers and what has been told. -/
structure World (σ : Type) where
  /-- The machine as it is. -/
  host : σ → Host
  run : Runner σ
  /-- Takes notice of an event. -/
  tell : Event → σ → σ

namespace Run

variable {σ : Type}

/-- The last event of a pass. -/
def passEnd (p : Pass) : Except Failure Report → Event
  | .ok r => .passFinished p r
  | .error e => .passFailed p e

/-- Runs passes on the targets of a domain, one after the other. -/
def runPasses (w : World σ) (c : Configuration) (targets : List Target) :
    List Pass → Summary → σ → Summary × σ
  | [], totals, s => (totals, s)
  | p :: ps, totals, s =>
    let s := w.tell (.passStarted p) s
    let (outcome, s) := p.check (w.host s) c w.run targets s
    runPasses w c targets ps (totals.addPass outcome) (w.tell (passEnd p outcome) s)

/-- The targets of a command in a domain. -/
def targets (host : Host) (c : Configuration) (cmd : Command) (name : Option String)
    (d : Domain) : Except Failure (List Target) :=
  Target.resolve host (d.config c) c.projectRoot d.linterName cmd.scope name

/-- The event that tells that there is nothing to lint. -/
def idle (c : Configuration) (d : Domain) : Event :=
  if (d.config c).targets.isEmpty then .noTargets d else .noMatches d

/-- Runs a command on one domain. -/
def runDomain (w : World σ) (c : Configuration) (cmd : Command) (name : Option String)
    (d : Domain) (totals : Summary) (s : σ) : Summary × σ :=
  match targets (w.host s) c cmd name d with
  | .error e =>
    if e.isSkippable then
      match c.unsupportedTarget with
      | .skip => (totals, s)
      | .warn => (totals, w.tell (.skipped d e) s)
    else (totals.addError, w.tell (.resolveFailed d e) s)
  | .ok [] => (totals, w.tell (idle c d) s)
  | .ok (t :: ts) => runPasses w c (t :: ts) (cmd.passes d) totals s

/-- Runs a command on domains, one after the other. -/
def runDomains (w : World σ) (c : Configuration) (cmd : Command) (name : Option String) :
    List Domain → Summary → σ → Summary × σ
  | [], totals, s => (totals, s)
  | d :: ds, totals, s =>
    let (totals, s) := runDomain w c cmd name d totals s
    runDomains w c cmd name ds totals s

/-- Runs a command. `name` is the target that the command line names. -/
def command (w : World σ) (c : Configuration) (cmd : Command) (name : Option String) (s : σ) :
    Summary × σ :=
  runDomains w c cmd name cmd.domains .zero s

/-! ### Logs -/

/-- What is written down of a run. -/
inductive LogLine
  | event (e : Event)
  | call (c : ToolCommand) (answer : Except Failure ToolOutput)
  deriving Repr

namespace LogLine

def event? : LogLine → Option Event
  | event e => some e
  | call _ _ => none

def call? : LogLine → Option ToolCommand
  | event _ => none
  | call c _ => some c

end LogLine

/-- Writes the commands and the answers to them into a log. -/
def loggedRunner (run : Runner σ) : Runner (σ × List LogLine) := fun c (s, log) =>
  let (answer, s) := run c s
  (answer, s, log ++ [.call c answer])

/-- Writes all that happens into a log. `view` shows the machine. -/
def logged (view : σ → Host) (run : Runner σ) : World (σ × List LogLine) where
  host := fun (s, _) => view s
  run := loggedRunner run
  tell := fun e (s, log) => (s, log ++ [.event e])

/-- A run that is over. -/
structure Outcome (σ : Type) where
  totals : Summary
  /-- What the runner remembers in the end. -/
  memory : σ
  log : List LogLine

namespace Outcome

/-- What the run told, in order. -/
def events (o : Outcome σ) : List Event := o.log.filterMap LogLine.event?

/-- The commands that were run, in order. -/
def calls (o : Outcome σ) : List ToolCommand := o.log.filterMap LogLine.call?

end Outcome

/-- Runs a command and keeps a log. -/
def perform (view : σ → Host) (c : Configuration) (cmd : Command) (name : Option String)
    (run : Runner σ) (s : σ) : Outcome σ :=
  let (totals, s, log) := command (logged view run) c cmd name (s, [])
  ⟨totals, s, log⟩

/-! ### Warnings and results -/

/-- The warnings that are given while a command runs on one domain. -/
def domainWarnings (host : Host) (c : Configuration) (cmd : Command) (name : Option String)
    (d : Domain) : List Warning :=
  Target.warnings host (d.config c) c.projectRoot name ++
    match targets host c cmd name d with
    | .ok (_ :: _) => (cmd.passes d).flatMap fun p => p.warnings host c
    | _ => []

/-- The warnings that are given while a command runs. -/
def warnings (host : Host) (c : Configuration) (cmd : Command) (name : Option String) :
    List Warning :=
  cmd.domains.flatMap (domainWarnings host c cmd name)

/-- The reports of the finished passes. -/
def reports (es : List Event) : List (Pass × Report) :=
  es.filterMap fun
    | .passFinished p r => some (p, r)
    | _ => none

/-- The failures that count as errors. -/
def failures (es : List Event) : List Failure :=
  es.filterMap fun
    | .passFailed _ e => some e
    | .resolveFailed _ e => some e
    | _ => none

end Run

end SiteLint
