import SiteLint.Proofs.FailClosed
import SiteLint.Proofs.TargetPaths

/-!
Which commands a run starts, and when.

A tool is only started between the two events of a pass, and a pass only for targets that were
found. ESLint and the standards check are started once at most, with all targets behind the
options; the syntax check takes the files one after the other. Every such path starts with a slash,
so none is taken for an option. A tool is given the text of a path: it sees exactly the targets where
all names are texts, and for a path that is none it is given the text with U+FFFD for what is
ill-formed.
-/

namespace SiteLint

open Run

/-- The command that the options of `bare` and the targets make. -/
def ToolCommand.onTargets (bare : ToolCommand) (targets : List Target) : ToolCommand :=
  bare.argumentList (targets.map fun t => t.path.toString)

/-- The command that checks the syntax of a file with a tool. -/
def PhpSyntax.fileCommand (c : Configuration) (file : Path) : ToolCommand where
  program := c.tools.php
  arguments := ["-l", file.toString]
  directory := some c.projectRoot

/-- The commands of a pass on targets that ends with `outcome`. -/
def Pass.Runs (host : Host) (c : Configuration) (targets : List Target) (cmds : List ToolCommand)
    (outcome : Except Failure Report) : Pass → Prop
  | .eslint =>
    host.isFile c.eslint.configPath = false ∧ cmds = [] ∨
      ∃ bare, Eslint.command host c [] = .ok bare ∧ bare.program = c.tools.eslint ∧
        bare.directory = some c.projectRoot ∧ cmds = [bare.onTargets targets]
  | .phpSyntax =>
    ∃ files, files <+: Target.expand host c.phpcs targets ∧
      (∀ r, outcome = .ok r → files = Target.expand host c.phpcs targets) ∧
      (∀ file ∈ files, StartsWithSlash file.toString) ∧ cmds = files.map (PhpSyntax.fileCommand c)
  | .phpStandards =>
    host.pathExists c.phpcs.configPath = false ∧ cmds = [] ∨
      ∃ bare, CodeSniffer.command host c [] = .ok bare ∧ bare.program = c.tools.phpcs ∧
        bare.directory = some c.projectRoot ∧ cmds = [bare.onTargets targets]

/-- A command with its answer, as it is written down. -/
def Run.LogLine.ofCall (x : ToolCommand × Except Failure ToolOutput) : LogLine := .call x.1 x.2

/-- The event begins or ends a pass. -/
def Event.isOfPass : Event → Bool
  | .passStarted _ => true
  | .passFinished _ _ => true
  | .passFailed _ _ => true
  | _ => false

variable {σ : Type} (view : σ → Host) (c : Configuration) (run : Runner σ)

namespace Run

/-- The log of passes on targets, from a state to a state: the calls of each pass stand between its
first and its last event. -/
inductive Spans (targets : List Target) : List Pass → σ → List LogLine → σ → Prop
  | nil (s : σ) : Spans targets [] s [] s
  | cons {p : Pass} {ps : List Pass} {s₀ s₁ s₂ : σ} {outcome : Except Failure Report}
      {calls : List (ToolCommand × Except Failure ToolOutput)} {rest : List LogLine}
      (here : p.check (view s₀) c run targets s₀ = (outcome, s₁))
      (runs : p.Runs (view s₀) c targets (calls.map (·.1)) outcome)
      (later : Spans targets ps s₁ rest s₂) :
      Spans targets (p :: ps) s₀
        (.event (.passStarted p) ::
          (calls.map .ofCall ++ .event (passEnd p outcome) :: rest)) s₂

variable (cmd : Command) (name : Option String)

/-- The log of domains, from a state to a state: without targets there are no calls and no events
of a pass. -/
inductive DomainSpans : List Domain → σ → List LogLine → σ → Prop
  | nil (s : σ) : DomainSpans [] s [] s
  | idle {d : Domain} {ds : List Domain} {s₀ s₁ : σ} {es : List Event} {rest : List LogLine}
      (nothing : ∀ ts, targets (view s₀) c cmd name d = .ok ts → ts = [])
      (quiet : ∀ e ∈ es, e.isOfPass = false) (later : DomainSpans ds s₀ rest s₁) :
      DomainSpans (d :: ds) s₀ (es.map .event ++ rest) s₁
  | linted {d : Domain} {ds : List Domain} {s₀ s₁ s₂ : σ} {ts : List Target}
      {log rest : List LogLine} (found : targets (view s₀) c cmd name d = .ok ts)
      (some : ts ≠ []) (slashed : ∀ t ∈ ts, StartsWithSlash t.path.toString)
      (here : Spans view c run ts (cmd.passes d) s₀ log s₁) (later : DomainSpans ds s₁ rest s₂) :
      DomainSpans (d :: ds) s₀ (log ++ rest) s₂

end Run

/-! ### The commands of a pass -/

section

variable {host : Host} {c : Configuration} {run : Runner σ}

lemma Pass.Runs.directory {targets : List Target} {cmds : List ToolCommand}
    {outcome : Except Failure Report} {p : Pass} (h : p.Runs host c targets cmds outcome) :
    ∀ q ∈ cmds, q.directory = some c.projectRoot := by
  cases p with
  | eslint | phpStandards =>
    rcases h with ⟨-, rfl⟩ | ⟨bare, -, -, hdirectory, rfl⟩
    · simp
    · simpa [ToolCommand.onTargets, ToolCommand.argumentList] using hdirectory
  | phpSyntax =>
    obtain ⟨files, -, -, -, rfl⟩ := h
    intro q hq
    obtain ⟨file, -, rfl⟩ := List.mem_map.1 hq
    rfl

variable (host c run)

end

/-! ### The log of a run -/

namespace Run

variable {view c run} {cmd : Command} {name : Option String}

lemma callsIn_map_ofCall (calls : List (ToolCommand × Except Failure ToolOutput)) :
    callsIn (calls.map .ofCall) = calls.map (·.1) := by
  induction calls with
  | nil => rfl
  | cons x calls ih => exact congrArg (x.1 :: ·) ih

lemma callsIn_map_event (es : List Event) : callsIn (es.map .event) = [] := by
  induction es with
  | nil => rfl
  | cons e es ih => exact ih

lemma Spans.directory {targets : List Target} {ps : List Pass} {s₀ s₁ : σ} {log : List LogLine}
    (h : Spans view c run targets ps s₀ log s₁) :
    ∀ q ∈ callsIn log, q.directory = some c.projectRoot := by
  induction h with
  | nil => simp
  | cons _ runs _ ih =>
    intro q hq
    simp only [callsIn_event, callsIn_append, callsIn_map_ofCall, List.mem_append] at hq
    rcases hq with hq | hq
    · exact runs.directory q hq
    · exact ih q hq

lemma DomainSpans.directory {ds : List Domain} {s₀ s₁ : σ} {log : List LogLine}
    (h : DomainSpans view c run cmd name ds s₀ log s₁) :
    ∀ q ∈ callsIn log, q.directory = some c.projectRoot := by
  induction h with
  | nil => simp
  | idle _ _ _ ih =>
    intro q hq
    rw [callsIn_append, callsIn_map_event, List.nil_append] at hq
    exact ih q hq
  | linted _ _ _ here _ ih =>
    intro q hq
    rw [callsIn_append, List.mem_append] at hq
    rcases hq with hq | hq
    · exact here.directory q hq
    · exact ih q hq

/-- A script whose name is no text is given under another name. -/
example : (Path.ofLocation [0xFF :: ".js".toList]).toString = "/\uFFFD.js" := by cbv

end Run

end SiteLint
