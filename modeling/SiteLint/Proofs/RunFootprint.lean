import SiteLint.Proofs.RunProtocol

/-!
What a run reads of its set-up.

The passes on a domain read where the project is, the rules and the extensions of their linter, and
the programs they start. The targets in the set-up are only read when the command line names none.
So set-ups that agree in this much lead to the same run. Two switches are read by no pass: what is
done about a target that a linter does not handle shows in the events that tell of something
skipped, and whether findings count shows in the exit status.
-/

namespace SiteLint

open Run

/-! ### Set-ups that agree -/

/-- The linters are set up alike, apart from their targets. -/
structure LinterConfig.Alike (l₁ l₂ : LinterConfig) : Prop where
  configPath : l₁.configPath = l₂.configPath
  ignorePath : l₁.ignorePath = l₂.ignorePath
  extensions : l₁.extensions = l₂.extensions

/-- The programs that are started for a domain. -/
def Domain.programs (c : Configuration) : Domain → List String
  | js => [c.tools.eslint]
  | php => [c.tools.php, c.tools.phpcs]

/-- The set-ups agree in all that a domain is linted with, apart from the targets. -/
structure Domain.Agree (d : Domain) (c₁ c₂ : Configuration) : Prop where
  root : c₁.projectRoot = c₂.projectRoot
  plugin : c₁.pluginDirectory = c₂.pluginDirectory
  linter : (d.config c₁).Alike (d.config c₂)
  programs : d.programs c₁ = d.programs c₂
  strip : d = .php → c₁.stripAdvertisement = c₂.stripAdvertisement

/-- The set-ups agree in the targets of a domain, if these are asked for. -/
def Domain.SameTargets (d : Domain) (name : Option String) (c₁ c₂ : Configuration) : Prop :=
  name = none → (d.config c₁).targets = (d.config c₂).targets

lemma Domain.agree_of_switches (d : Domain) {name : Option String} {c₁ c₂ : Configuration}
    (hroot : c₁.projectRoot = c₂.projectRoot) (hplugin : c₁.pluginDirectory = c₂.pluginDirectory)
    (heslint : c₁.eslint = c₂.eslint) (hphpcs : c₁.phpcs = c₂.phpcs)
    (htools : c₁.tools = c₂.tools) (hstrip : c₁.stripAdvertisement = c₂.stripAdvertisement) :
    d.Agree c₁ c₂ ∧ d.SameTargets name c₁ c₂ := by
  have hconfig : d.config c₁ = d.config c₂ := by
    cases d with
    | js => exact heslint
    | php => exact hphpcs
  have hprograms : d.programs c₁ = d.programs c₂ := by
    cases d <;> simp only [programs, htools]
  exact ⟨⟨hroot, hplugin, hconfig ▸ ⟨rfl, rfl, rfl⟩, hprograms, fun _ => hstrip⟩,
    fun _ => by rw [hconfig]⟩

/-- The domain whose files a pass is run on. -/
def Pass.domain : Pass → Domain
  | eslint => .js
  | phpSyntax => .php
  | phpStandards => .php

lemma Command.domain_of_mem_passes {cmd : Command} {d : Domain} {p : Pass}
    (h : p ∈ cmd.passes d) : p.domain = d := by
  cases d with
  | js =>
    obtain rfl : p = .eslint := by simpa [passes] using h
    rfl
  | php =>
    have hp : p = .phpSyntax ∨ p = .phpStandards := by cases cmd <;> simp_all [passes]
    rcases hp with rfl | rfl <;> rfl

/-! ### Targets -/

namespace LinterConfig.Alike

variable {l₁ l₂ : LinterConfig} (h : l₁.Alike l₂)

include h

lemma extensionList_eq : l₁.extensionList = l₂.extensionList := by
  rw [extensionList, extensionList, h.extensions]

lemma accepts_eq : l₁.accepts = l₂.accepts := by
  funext p
  simp only [accepts, h.extensionList_eq]

lemma filesBeneath_eq (host : Host) (dir : Path) :
    l₁.filesBeneath host dir = l₂.filesBeneath host dir := by
  rw [filesBeneath, filesBeneath, h.accepts_eq]

lemma expand_eq (host : Host) (ts : List Target) :
    Target.expand host l₁ ts = Target.expand host l₂ ts := by
  have hfiles : Target.files host l₁ = Target.files host l₂ := by
    funext t
    cases t with
    | file p => rfl
    | directory p => exact h.filesBeneath_eq host p
  rw [Target.expand, Target.expand, hfiles]

lemma entryFiles_eq (host : Host) (root : Path) (entry : String) :
    Target.entryFiles? host l₁ root entry = Target.entryFiles? host l₂ root entry := by
  simp only [Target.entryFiles?, h.accepts_eq, h.filesBeneath_eq]

lemma requested_eq (host : Host) (root : Path) (linter : String) (scope : Scope) (name : String) :
    Target.requested host l₁ root linter scope name =
      Target.requested host l₂ root linter scope name := by
  simp only [Target.requested, h.accepts_eq, h.extensionList_eq]

lemma resolve_eq {name : Option String} (ht : name = none → l₁.targets = l₂.targets) (host : Host)
    (root : Path) (linter : String) (scope : Scope) :
    Target.resolve host l₁ root linter scope name =
      Target.resolve host l₂ root linter scope name := by
  cases name with
  | some n => simp only [Target.resolve, h.requested_eq]
  | none => simp only [Target.resolve, Target.configured, ht rfl, h.entryFiles_eq]

lemma warnings_eq {name : Option String} (ht : name = none → l₁.targets = l₂.targets)
    (host : Host) (root : Path) :
    Target.warnings host l₁ root name = Target.warnings host l₂ root name := by
  cases name with
  | some n => rfl
  | none => simp only [Target.warnings, Target.configuredWarnings, ht rfl, h.entryFiles_eq]

end LinterConfig.Alike

/-! ### Passes -/

variable {σ : Type} {c₁ c₂ : Configuration}

lemma Eslint.command_congr (h : Domain.js.Agree c₁ c₂) (host : Host) (targets : List Target) :
    command host c₁ targets = command host c₂ targets := by
  obtain ⟨hroot, -, hlinter, hprogram, -⟩ := h
  have hextensions : c₁.eslint.extensionList = c₂.eslint.extensionList := hlinter.extensionList_eq
  obtain ⟨hconfig, hignore, -⟩ := hlinter
  simp only [Domain.config, Domain.programs, List.cons.injEq] at hconfig hignore hprogram
  simp only [command, ignoreArguments, extensionArgument, hconfig, hignore, hextensions, hroot,
    hprogram.1]

lemma CodeSniffer.command_congr (h : Domain.php.Agree c₁ c₂) (host : Host)
    (targets : List Target) : command host c₁ targets = command host c₂ targets := by
  obtain ⟨hroot, -, hlinter, hprograms, -⟩ := h
  have hextensions : c₁.phpcs.extensionList = c₂.phpcs.extensionList := hlinter.extensionList_eq
  obtain ⟨hconfig, hignore, -⟩ := hlinter
  simp only [Domain.config, Domain.programs, List.cons.injEq] at hconfig hignore hprograms
  simp only [command, hconfig, hignore, hextensions, hroot, hprograms.2.1]

lemma PhpSyntax.checkFiles_congr (h : Domain.php.Agree c₁ c₂) (run : Runner σ)
    (files : List Path) (s : σ) : checkFiles c₁ run files s = checkFiles c₂ run files s := by
  have hcommand (file : Path) : command c₁ file = command c₂ file := by
    have hprograms := h.programs
    simp only [Domain.programs, List.cons.injEq] at hprograms
    simp only [command, hprograms.1, h.root]
  induction files generalizing s with
  | nil => rfl
  | cons file files ih => simp only [checkFiles, hcommand, ih]

lemma Pass.check_congr {p : Pass} (h : p.domain.Agree c₁ c₂) (host : Host) (run : Runner σ)
    (targets : List Target) (s : σ) :
    p.check host c₁ run targets s = p.check host c₂ run targets s := by
  cases p with
  | eslint => simp only [check, Eslint.check, Eslint.command_congr h]
  | phpSyntax =>
    have hexpand : Target.expand host c₁.phpcs targets = Target.expand host c₂.phpcs targets :=
      h.linter.expand_eq host targets
    simp only [check, PhpSyntax.check, hexpand, PhpSyntax.checkFiles_congr h]
  | phpStandards =>
    simp only [check, CodeSniffer.check, CodeSniffer.command_congr h, h.strip rfl]

lemma Pass.calls_congr {p : Pass} (h : p.domain.Agree c₁ c₂) (host : Host) (run : Runner σ)
    (targets : List Target) (s : σ) :
    p.calls host c₁ run targets s = p.calls host c₂ run targets s := by
  have hlogged := p.check_congr h host (loggedRunner run) targets (s, [])
  rw [check_logged, check_logged] at hlogged
  simpa using congrArg (·.2.2) hlogged

lemma Pass.warnings_congr {p : Pass} (h : p.domain.Agree c₁ c₂) (host : Host) :
    p.warnings host c₁ = p.warnings host c₂ := by
  obtain ⟨-, hplugin, ⟨hconfig, hignore, -⟩, -, -⟩ := h
  cases p with
  | eslint =>
    simp only [domain, Domain.config] at hconfig hignore
    simp only [warnings, Eslint.warnings, Eslint.commandWarnings, hplugin, hconfig, hignore]
  | phpSyntax => rfl
  | phpStandards =>
    simp only [domain, Domain.config] at hconfig hignore
    simp only [warnings, CodeSniffer.warnings, hconfig, hignore]

/-! ### Runs -/

/-- The event tells of a domain that is skipped. -/
def Event.isSkipped : Event → Bool
  | skipped _ _ => true
  | _ => false

namespace Run

/-- The line tells of a domain that is skipped. -/
def LogLine.isSkipped : LogLine → Bool
  | event e => e.isSkipped
  | call _ _ => false

@[simp] lemma LogLine.isSkipped_event (e : Event) : (LogLine.event e).isSkipped = e.isSkipped := rfl
@[simp] lemma LogLine.isSkipped_call (q : ToolCommand) (a : Except Failure ToolOutput) :
    (LogLine.call q a).isSkipped = false := rfl

section

variable {view : σ → Host} {cmd : Command} {name : Option String} {run : Runner σ} {d : Domain}

lemma targets_congr (h : d.Agree c₁ c₂) (ht : d.SameTargets name c₁ c₂) (host : Host) :
    targets host c₁ cmd name d = targets host c₂ cmd name d := by
  simp only [targets, h.root, h.linter.resolve_eq ht]

lemma passLog_congr {ps : List Pass} (h : ∀ p ∈ ps, p.domain.Agree c₁ c₂) (ts : List Target)
    (s : σ) : passLog view c₁ run ts ps s = passLog view c₂ run ts ps s := by
  induction ps generalizing s with
  | nil => rfl
  | cons p ps ih =>
    rw [List.forall_mem_cons] at h
    simp only [passLog, span, p.check_congr h.1, p.calls_congr h.1, ih h.2]

lemma idle_congr {host : Host} (ht : d.SameTargets name c₁ c₂)
    (hnone : targets host c₂ cmd name d = .ok []) : idle c₁ d = idle c₂ d := by
  rw [idle, idle, ht (name_eq_none hnone)]

lemma filter_refusal (c : Configuration) (d : Domain) (e : Failure) :
    ((refusal c d e).map LogLine.event).filter (!·.isSkipped) =
      if e.isSkippable then [] else [.event (.resolveFailed d e)] := by
  unfold refusal
  split
  · cases c.unsupportedTarget with
    | skip => rfl
    | warn => rfl
  · rfl

variable (view cmd run) in
lemma domainLog_congr (h : d.Agree c₁ c₂) (ht : d.SameTargets name c₁ c₂) (s : σ) :
    (c₁.unsupportedTarget = c₂.unsupportedTarget →
      domainLog view c₁ cmd name run d s = domainLog view c₂ cmd name run d s) ∧
    (domainLog view c₁ cmd name run d s).2 = (domainLog view c₂ cmd name run d s).2 ∧
    (domainLog view c₁ cmd name run d s).1.filter (!·.isSkipped) =
      (domainLog view c₂ cmd name run d s).1.filter (!·.isSkipped) := by
  have hpasses : ∀ p ∈ cmd.passes d, p.domain.Agree c₁ c₂ := fun p hp =>
    Command.domain_of_mem_passes hp ▸ h
  simp only [domainLog, targets_congr h ht]
  rcases htargets : targets (view s) c₂ cmd name d with e | _ | ⟨t, ts⟩
  · refine ⟨fun hpolicy => by simp only [refusal, hpolicy], rfl, ?_⟩
    simp only [filter_refusal]
  · simp [idle_congr ht htargets]
  · simp [passLog_congr hpasses]

variable (view cmd run) in
lemma domainsLog_congr {ds : List Domain} (h : ∀ d ∈ ds, d.Agree c₁ c₂ ∧ d.SameTargets name c₁ c₂)
    (s : σ) :
    (c₁.unsupportedTarget = c₂.unsupportedTarget →
      domainsLog view c₁ cmd name run ds s = domainsLog view c₂ cmd name run ds s) ∧
    (domainsLog view c₁ cmd name run ds s).2 = (domainsLog view c₂ cmd name run ds s).2 ∧
    (domainsLog view c₁ cmd name run ds s).1.filter (!·.isSkipped) =
      (domainsLog view c₂ cmd name run ds s).1.filter (!·.isSkipped) := by
  induction ds generalizing s with
  | nil => simp [domainsLog]
  | cons d ds ih =>
    rw [List.forall_mem_cons] at h
    obtain ⟨hsame, hstate, hlog⟩ := domainLog_congr view cmd run h.1.1 h.1.2 s
    obtain ⟨hlaterSame, hlaterState, hlaterLog⟩ := ih h.2 (domainLog view c₂ cmd name run d s).2
    refine ⟨fun hpolicy => ?_, ?_, ?_⟩
    · simp only [domainsLog, hsame hpolicy, hlaterSame hpolicy]
    · simp only [domainsLog, hstate, hlaterState]
    · simp only [domainsLog, hstate, List.filter_append, hlog, hlaterLog]

lemma perform_congr (h : ∀ d ∈ cmd.domains, d.Agree c₁ c₂ ∧ d.SameTargets name c₁ c₂)
    (hpolicy : c₁.unsupportedTarget = c₂.unsupportedTarget) (s : σ) :
    perform view c₁ cmd name run s = perform view c₂ cmd name run s := by
  rw [perform_eq, perform_eq, (domainsLog_congr view cmd run h s).1 hpolicy]

lemma warnings_congr (h : ∀ d ∈ cmd.domains, d.Agree c₁ c₂ ∧ d.SameTargets name c₁ c₂)
    (host : Host) : warnings host c₁ cmd name = warnings host c₂ cmd name := by
  have hdomain : ∀ d ∈ cmd.domains,
      domainWarnings host c₁ cmd name d = domainWarnings host c₂ cmd name d := by
    intro d hd
    obtain ⟨hagree, ht⟩ := h d hd
    have hpasses : ((cmd.passes d).flatMap fun p => p.warnings host c₁) =
        (cmd.passes d).flatMap fun p => p.warnings host c₂ :=
      List.flatMap_congr fun p hp =>
        p.warnings_congr (Command.domain_of_mem_passes hp ▸ hagree) host
    simp only [domainWarnings, targets_congr hagree ht, hpasses, hagree.root,
      hagree.linter.warnings_eq ht]
  exact List.flatMap_congr hdomain

/-! ### What tells of something skipped -/

variable {log : List LogLine}

lemma filter_told (h : ∀ e ∈ eventsIn log, e.isSkipped = false) :
    log.filter (!·.isSkipped) = log := by
  rw [List.filter_eq_self]
  intro line hline
  cases line with
  | event e =>
    have he : e ∈ eventsIn log := List.mem_filterMap.2 ⟨_, hline, rfl⟩
    simp [h e he]
  | call q a => rfl

@[simp] lemma eventsIn_filter (log : List LogLine) :
    eventsIn (log.filter (!·.isSkipped)) = (eventsIn log).filter (!·.isSkipped) := by
  induction log with
  | nil => rfl
  | cons line log ih =>
    cases line with
    | event e => cases he : e.isSkipped <;> simp [he, ih]
    | call q a => simp [ih]

@[simp] lemma callsIn_filter (log : List LogLine) :
    callsIn (log.filter (!·.isSkipped)) = callsIn log := by
  induction log with
  | nil => rfl
  | cons line log ih =>
    cases line with
    | event e => cases he : e.isSkipped <;> simp [he, ih]
    | call q a => simp [ih]

lemma ofEvents_filter (es : List Event) :
    Summary.ofEvents (es.filter (!·.isSkipped)) = Summary.ofEvents es := by
  induction es with
  | nil => rfl
  | cons e es ih =>
    cases he : e.isSkipped with
    | false => simp [he, ih]
    | true =>
      have hzero : Summary.ofEvent e = 0 := by
        cases e <;> simp_all [Event.isSkipped, Summary.ofEvent]
      simp [he, ih, hzero]

variable {c : Configuration}

lemma domainLog_told (h : c.unsupportedTarget = .skip) (d : Domain) (s : σ) :
    ∀ e ∈ eventsIn (domainLog view c cmd name run d s).1, e.isSkipped = false := by
  unfold domainLog
  rcases targets (view s) c cmd name d with failure | _ | ⟨t, ts⟩
  · rw [eventsIn_map_event, refusal, h]
    split <;> simp [Event.isSkipped]
  · have hidle : (idle c d).isSkipped = false := by
      unfold idle
      split <;> rfl
    simpa using hidle
  · intro e he
    obtain ⟨p, rfl | ⟨outcome, rfl⟩⟩ := mem_eventsIn_passLog he
    · rfl
    · cases outcome <;> rfl

lemma domainsLog_told (h : c.unsupportedTarget = .skip) (ds : List Domain) (s : σ) :
    ∀ e ∈ eventsIn (domainsLog view c cmd name run ds s).1, e.isSkipped = false := by
  induction ds generalizing s with
  | nil => simp [domainsLog]
  | cons d ds ih =>
    simp only [domainsLog, eventsIn_append, List.forall_mem_append]
    exact ⟨domainLog_told h d s, ih _⟩

end

end Run

lemma Summary.exitCode_failing (t : Summary) :
    t.exitCode false = t.exitCode true ∨ t.exitCode false = 0 ∧ t.exitCode true = 1 := by
  unfold exitCode
  by_cases herrors : t.errors > 0
  · simp [herrors]
  · by_cases hmessages : t.messages > 0
    · simp [herrors, hmessages]
    · simp [herrors, hmessages]

/-! ### Two set-ups -/

namespace Configuration

/-- The set-up with other targets for each of the linters. -/
def withTargets (c : Configuration) (js php : List String) : Configuration :=
  { c with
    eslint := { c.eslint with targets := js }
    phpcs := { c.phpcs with targets := php } }

/-- The set-up with another one for ESLint, and with another form of the output. -/
def withEslint (c : Configuration) (linter : LinterConfig) (program output : String) :
    Configuration :=
  { c with eslint := linter, tools := { c.tools with eslint := program }, output := output }

/-- The set-up with another one for the PHP linters, and with another form of the output. -/
def withPhp (c : Configuration) (linter : LinterConfig) (php phpcs : String) (strip : Bool)
    (output : String) : Configuration :=
  { c with
    phpcs := linter
    tools := { c.tools with php := php, phpcs := phpcs }
    stripAdvertisement := strip
    output := output }

/-- The set-up with another way to deal with targets that a linter does not handle. -/
def withUnsupported (c : Configuration) (policy : UnsupportedTarget) : Configuration :=
  { c with unsupportedTarget := policy }

/-- The set-up in which findings count, or do not. -/
def withFailing (c : Configuration) (failing : Bool) : Configuration :=
  { c with failOnViolations := failing }

end Configuration

namespace Run

/-- A command does the same under both set-ups: it tells and calls the same in the same order, its
totals and its exit status are the same, and so are the warnings. -/
def Indistinct (cmd : Command) (name : Option String) (c₁ c₂ : Configuration) : Prop :=
  (∀ (σ : Type) (view : σ → Host) (run : Runner σ) (s : σ),
    let r₁ := perform view c₁ cmd name run s
    let r₂ := perform view c₂ cmd name run s
    r₁ = r₂ ∧
      r₁.totals.exitCode c₁.failOnViolations = r₂.totals.exitCode c₂.failOnViolations) ∧
  ∀ host, warnings host c₁ cmd name = warnings host c₂ cmd name

lemma indistinct_of_agree {cmd : Command} {name : Option String}
    (h : ∀ d ∈ cmd.domains, d.Agree c₁ c₂ ∧ d.SameTargets name c₁ c₂)
    (hpolicy : c₁.unsupportedTarget = c₂.unsupportedTarget)
    (hfailing : c₁.failOnViolations = c₂.failOnViolations) : Indistinct cmd name c₁ c₂ := by
  refine ⟨fun σ view run s => ?_, warnings_congr h⟩
  have hrun : perform view c₁ cmd name run s = perform view c₂ cmd name run s :=
    perform_congr h hpolicy s
  exact ⟨hrun, by rw [hrun, hfailing]⟩

lemma log_withUnsupported (view : σ → Host) (c : Configuration) (cmd : Command)
    (name : Option String) (run : Runner σ) (s : σ) :
    let quiet := perform view (c.withUnsupported .skip) cmd name run s
    let told := perform view (c.withUnsupported .warn) cmd name run s
    quiet.log = told.log.filter (!·.isSkipped) ∧ quiet.memory = told.memory := by
  intro quiet told
  have hagree : ∀ d ∈ cmd.domains,
      d.Agree (c.withUnsupported .skip) (c.withUnsupported .warn) ∧
        d.SameTargets name (c.withUnsupported .skip) (c.withUnsupported .warn) :=
    fun d _ => d.agree_of_switches rfl rfl rfl rfl rfl rfl
  obtain ⟨-, hmemory, hfiltered⟩ := domainsLog_congr view cmd run hagree s
  have hquiet : quiet = _ := perform_eq s
  have htold : told = _ := perform_eq s
  rw [hquiet, htold]
  exact ⟨(filter_told (domainsLog_told rfl _ _)).symm.trans hfiltered, hmemory⟩

/-- **What a run may depend on.** Named targets make the configured ones irrelevant; the commands
for PHP do not read how ESLint is set up, nor the other way round; what is done about targets that
a linter does not handle shows in what tells of something skipped and nowhere else; and whether
findings count shows in the exit status, when it is 0 or 1, and nowhere else. -/
theorem perform_noninterference (c : Configuration) :
    (∀ cmd n js php, Indistinct cmd (some n) (c.withTargets js php) c) ∧
    (∀ cmd ∈ [Command.phplint, .cs], ∀ name linter program output,
      Indistinct cmd name (c.withEslint linter program output) c) ∧
    (∀ name linter php phpcs strip output,
      Indistinct .jslint name (c.withPhp linter php phpcs strip output) c) ∧
    (∀ cmd name (σ : Type) (view : σ → Host) (run : Runner σ) (s : σ),
      let quiet := perform view (c.withUnsupported .skip) cmd name run s
      let told := perform view (c.withUnsupported .warn) cmd name run s
      quiet.log = told.log.filter (!·.isSkipped) ∧
      quiet.events = told.events.filter (!·.isSkipped) ∧ quiet.calls = told.calls ∧
      quiet.memory = told.memory ∧ quiet.totals = told.totals ∧
      ∀ host, warnings host (c.withUnsupported .skip) cmd name =
        warnings host (c.withUnsupported .warn) cmd name) ∧
    ∀ cmd name (σ : Type) (view : σ → Host) (run : Runner σ) (s : σ),
      let lenient := perform view (c.withFailing false) cmd name run s
      let strict := perform view (c.withFailing true) cmd name run s
      lenient = strict ∧
      (lenient.totals.exitCode false = strict.totals.exitCode true ∨
        lenient.totals.exitCode false = 0 ∧ strict.totals.exitCode true = 1) ∧
      ∀ host, warnings host (c.withFailing false) cmd name =
        warnings host (c.withFailing true) cmd name := by
  refine ⟨fun cmd n js php => ?_, fun cmd hcmd name linter program output => ?_,
    fun name linter php phpcs strip output => ?_, fun cmd name σ view run s => ?_,
    fun cmd name σ view run s => ?_⟩
  · refine indistinct_of_agree (fun d _ => ⟨?_, fun hnone => by cases hnone⟩) rfl rfl
    cases d <;> exact ⟨rfl, rfl, ⟨rfl, rfl, rfl⟩, rfl, fun _ => rfl⟩
  · have hdomains : ∀ d ∈ cmd.domains, d = .php := by
      rcases List.mem_pair.1 hcmd with rfl | rfl <;> simp [Command.domains]
    refine indistinct_of_agree (fun d hd => ?_) rfl rfl
    obtain rfl := hdomains d hd
    exact ⟨⟨rfl, rfl, ⟨rfl, rfl, rfl⟩, rfl, fun _ => rfl⟩, fun _ => rfl⟩
  · refine indistinct_of_agree (fun d hd => ?_) rfl rfl
    obtain rfl := List.mem_singleton.1 hd
    exact ⟨⟨rfl, rfl, ⟨rfl, rfl, rfl⟩, rfl, fun h => by cases h⟩, fun _ => rfl⟩
  · intro quiet told
    obtain ⟨hlog, hmemory⟩ := log_withUnsupported view c cmd name run s
    have hevents : quiet.events = told.events.filter (!·.isSkipped) := by
      rw [Outcome.events_eq, hlog, eventsIn_filter, Outcome.events_eq]
    have hcalls : quiet.calls = told.calls := by
      rw [Outcome.calls_eq, hlog, callsIn_filter, Outcome.calls_eq]
    have htotals : quiet.totals = told.totals := by
      rw [perform_totals, hevents, ofEvents_filter, ← perform_totals]
    exact ⟨hlog, hevents, hcalls, hmemory, htotals,
      warnings_congr fun d _ => d.agree_of_switches rfl rfl rfl rfl rfl rfl⟩
  · intro lenient strict
    have hagree : ∀ d ∈ cmd.domains, d.Agree (c.withFailing false) (c.withFailing true) ∧
        d.SameTargets name (c.withFailing false) (c.withFailing true) :=
      fun d _ => d.agree_of_switches rfl rfl rfl rfl rfl rfl
    have hrun : lenient = strict := perform_congr hagree rfl s
    refine ⟨hrun, ?_, warnings_congr hagree⟩
    rw [hrun]
    exact strict.totals.exitCode_failing

end Run

end SiteLint
