import SiteLint.Proofs.RunLog

/-!
The combined command as the commands of its domains, one after the other.

The combined command looks up targets with another scope than the commands that name their linter,
and a scope only shows in one failure: a target that the linter does not handle. So its log is that
of the other two, but for this failure, which it passes over or tells as something skipped.
-/

namespace SiteLint.Run

variable {σ : Type}

/-- What the combined command tells in place of an event of a command that names its linter. -/
def combinedEvent (policy : UnsupportedTarget) : Event → List Event
  | .resolveFailed d (.unsupportedExtension p linter es _) =>
    match policy with
    | .skip => []
    | .warn => [.skipped d (.unsupportedExtension p linter es false)]
  | e => [e]

/-- The event tells of a target that the linter does not handle. -/
def isUnsupported : Event → Bool
  | .resolveFailed _ (.unsupportedExtension _ _ _ _) => true
  | _ => false

/-- What the combined command writes down in place of a line. -/
def combinedLine (policy : UnsupportedTarget) : LogLine → List LogLine
  | .event e => (combinedEvent policy e).map .event
  | .call c answer => [.call c answer]

/-- The failure as the combined command sees it. -/
def asCombined : Failure → Failure
  | .unsupportedExtension p linter es _ => .unsupportedExtension p linter es false
  | e => e

/-! ### Where a scope shows -/

lemma combinedEvent_self {policy : UnsupportedTarget} {e : Event} (h : isUnsupported e = false) :
    combinedEvent policy e = [e] := by
  unfold combinedEvent
  split
  · simp [isUnsupported] at h
  · rfl

lemma combinedLine_self {policy : UnsupportedTarget} {log : List LogLine}
    (h : ∀ e ∈ eventsIn log, isUnsupported e = false) :
    log.flatMap (combinedLine policy) = log := by
  induction log with
  | nil => rfl
  | cons line log ih =>
    cases line with
    | event e =>
      have he := h e (by simp)
      have hlog := ih fun e' he' => h e' (by simp [he'])
      simp [combinedLine, combinedEvent_self he, hlog]
    | call q a =>
      have hlog := ih fun e' he' => h e' (by simpa using he')
      simp [combinedLine, hlog]

@[simp] lemma eventsIn_combined (policy : UnsupportedTarget) (log : List LogLine) :
    eventsIn (log.flatMap (combinedLine policy)) =
      (eventsIn log).flatMap (combinedEvent policy) := by
  induction log with
  | nil => rfl
  | cons line log ih => cases line <;> simp [combinedLine, ih]

@[simp] lemma callsIn_combined (policy : UnsupportedTarget) (log : List LogLine) :
    callsIn (log.flatMap (combinedLine policy)) = callsIn log := by
  have hevents (es : List Event) : callsIn (es.map .event) = [] := by
    induction es with
    | nil => rfl
    | cons e es ih => simpa using ih
  induction log with
  | nil => rfl
  | cons line log ih => cases line <;> simp [combinedLine, hevents, ih]

lemma ofEvents_combined (policy : UnsupportedTarget) (es : List Event) :
    Summary.ofEvents (es.flatMap (combinedEvent policy)) + ⟨0, 0, es.countP isUnsupported⟩ =
      Summary.ofEvents es := by
  induction es with
  | nil => rfl
  | cons e es ih =>
    rw [List.flatMap_cons, Summary.ofEvents_append, Summary.ofEvents_cons, ← ih]
    cases h : isUnsupported e with
    | false => simp [combinedEvent_self h, h, add_assoc]
    | true =>
      -- only a refusal is unsupported, and what stands in its place adds nothing
      have hzero : Summary.ofEvents (combinedEvent policy e) = 0 := by
        unfold isUnsupported at h
        split at h
        · cases policy <;> rfl
        · simp at h
      have hone : Summary.ofEvent e = ⟨0, 0, 1⟩ := by
        unfold isUnsupported at h
        split at h
        · rfl
        · simp at h
      rw [hzero, hone]
      ext <;> simp [h]; omega

variable (view : σ → Host) (c : Configuration) (cmd : Command) (name : Option String)
  (run : Runner σ)

lemma isUnsupported_idle (d : Domain) : isUnsupported (idle c d) = false := by
  unfold idle
  split
  · rfl
  · rfl

lemma passLog_supported (targets : List Target) (ps : List Pass) (s : σ) :
    ∀ e ∈ eventsIn (passLog view c run targets ps s).1, isUnsupported e = false := by
  intro e he
  obtain ⟨p, rfl | ⟨outcome, rfl⟩⟩ := mem_eventsIn_passLog he
  · rfl
  · cases outcome <;> rfl

/-! ### One domain -/

variable {cmd} in
lemma targets_lint (host : Host) (d : Domain) (h : cmd.scope = .explicit) :
    targets host c .lint name d = (targets host c cmd name d).mapError asCombined := by
  cases name with
  | none => rfl
  | some n =>
    simp only [targets, Target.resolve, Target.requested, h]
    split
    · rfl
    · split
      · rfl
      · split
        · rfl
        · rfl

variable {c cmd name} in
lemma targets_error {host : Host} {d : Domain} {e : Failure}
    (h : targets host c cmd name d = .error e) :
    ∃ p, e = .targetNotFound p ∨
      e = .unsupportedExtension p d.linterName (d.config c).extensionList
        (cmd.scope = .explicit) := by
  cases name with
  | none => simp [targets, Target.resolve] at h
  | some n =>
    refine ⟨c.projectRoot.join (.ofString n), ?_⟩
    simp only [targets, Target.resolve, Target.requested] at h
    split at h
    · exact .inl (by simpa [Except.map] using h.symm)
    · split at h
      · simp [Except.map] at h
      · split at h
        · exact .inr (by simpa [Except.map] using h.symm)
        · simp [Except.map] at h

lemma domainLog_lint (d : Domain) (s : σ) (hs : cmd.scope = .explicit)
    (hp : cmd.passes d = Command.lint.passes d) :
    domainLog view c .lint name run d s =
      ((domainLog view c cmd name run d s).1.flatMap (combinedLine c.unsupportedTarget),
        (domainLog view c cmd name run d s).2) := by
  unfold domainLog
  rw [targets_lint c name (view s) d hs, hp]
  rcases h : targets (view s) c cmd name d with e | _ | ⟨t, ts⟩
  · obtain ⟨p, rfl | rfl⟩ := targets_error h
    · simp [Except.mapError, asCombined, refusal, Failure.isSkippable, combinedLine,
        combinedEvent]
    · cases hp : c.unsupportedTarget <;>
        simp [Except.mapError, asCombined, refusal, Failure.isSkippable, hs, hp, combinedLine,
          combinedEvent]
  · simp [Except.mapError, combinedLine, combinedEvent_self (isUnsupported_idle c d)]
  · have hpasses := passLog_supported view c run (t :: ts) (Command.lint.passes d) s
    simp [Except.mapError, combinedLine_self hpasses]

/-! ### Whole runs -/

lemma lint_log (s : σ) :
    (perform view c .lint name run s).memory =
        (perform view c .phplint name run (perform view c .jslint name run s).memory).memory ∧
      (perform view c .lint name run s).log =
        ((perform view c .jslint name run s).log ++
          (perform view c .phplint name run (perform view c .jslint name run s).memory).log).flatMap
            (combinedLine c.unsupportedTarget) := by
  have hjs (s : σ) := domainLog_lint view c .jslint name run .js s rfl rfl
  have hphp (s : σ) := domainLog_lint view c .phplint name run .php s rfl rfl
  simp [perform_eq, Command.domains, domainsLog, hjs, hphp]

lemma domainsLog_supported (ds : List Domain) (s : σ) :
    ∀ e ∈ eventsIn (domainsLog view c cmd none run ds s).1, isUnsupported e = false := by
  induction ds generalizing s with
  | nil => simp [domainsLog]
  | cons d ds ih =>
    have hd : ∀ e ∈ eventsIn (domainLog view c cmd none run d s).1, isUnsupported e = false := by
      have hok : targets (view s) c cmd none d =
          .ok (Target.configured (view s) (d.config c) c.projectRoot) := rfl
      unfold domainLog
      rw [hok]
      rcases Target.configured (view s) (d.config c) c.projectRoot with _ | ⟨t, ts⟩
      · simpa using isUnsupported_idle c d
      · exact passLog_supported _ _ _ _ _ _
    intro e he
    simp only [domainsLog, eventsIn_append, List.mem_append] at he
    rcases he with he | he
    · exact hd e he
    · exact ih _ e he

variable {view c} in
lemma domainLog_missing {n : String} {s : σ} (d : Domain)
    (h : (view s).pathExists (c.projectRoot.join (.ofString n)) = false) :
    domainLog view c cmd (some n) run d s =
      ([.event (.resolveFailed d (.targetNotFound (c.projectRoot.join (.ofString n))))], s) := by
  have ht : targets (view s) c cmd (some n) d =
      .error (.targetNotFound (c.projectRoot.join (.ofString n))) := by
    simp [targets, Target.resolve, Target.requested, h, Except.map]
  simp [domainLog, ht, refusal, Failure.isSkippable]

/-- **The combined command.** It makes the calls of the two commands that name their linter, the
second run from where the first one leaves the runner, and writes down what they do but for targets
that a linter does not handle, which it does not count as errors. Without a target on the command
line there are none of these. A target that is not there is told once for each domain. -/
theorem lint_eq_jslint_then_phplint (view : σ → Host) (c : Configuration) (run : Runner σ)
    (s : σ) :
    (∀ name,
      let j := perform view c .jslint name run s
      let p := perform view c .phplint name run j.memory
      let l := perform view c .lint name run s
      l.memory = p.memory ∧ l.calls = j.calls ++ p.calls ∧
      l.log = (j.log ++ p.log).flatMap (combinedLine c.unsupportedTarget) ∧
      l.events = (j.events ++ p.events).flatMap (combinedEvent c.unsupportedTarget) ∧
      l.totals + ⟨0, 0, (j.events ++ p.events).countP isUnsupported⟩ = j.totals + p.totals) ∧
    (let j := perform view c .jslint none run s
      let p := perform view c .phplint none run j.memory
      let l := perform view c .lint none run s
      l.events = j.events ++ p.events ∧ l.totals = j.totals + p.totals) ∧
    ∀ n, (view s).pathExists (c.projectRoot.join (.ofString n)) = false →
      let l := perform view c .lint (some n) run s
      l.calls = [] ∧
      l.events = [.resolveFailed .js (.targetNotFound (c.projectRoot.join (.ofString n))),
        .resolveFailed .php (.targetNotFound (c.projectRoot.join (.ofString n)))] := by
  refine ⟨fun name => ?_, ?_, fun n hn => ?_⟩
  · obtain ⟨hmemory, hlog⟩ := lint_log view c name run s
    have hevents := congrArg eventsIn hlog
    have hcalls := congrArg callsIn hlog
    rw [eventsIn_combined, eventsIn_append] at hevents
    rw [callsIn_combined, callsIn_append] at hcalls
    refine ⟨hmemory, hcalls, hlog, hevents, ?_⟩
    have hsum := ofEvents_combined c.unsupportedTarget
      (eventsIn (perform view c .jslint name run s).log ++
        eventsIn (perform view c .phplint name run (perform view c .jslint name run s).memory).log)
    rw [← hevents, Summary.ofEvents_append] at hsum
    simpa only [perform_totals, Outcome.events_eq] using hsum
  · have hlog := (lint_log view c none run s).2
    have hsupported : ∀ e ∈ eventsIn ((perform view c .jslint none run s).log ++
        (perform view c .phplint none run (perform view c .jslint none run s).memory).log),
        isUnsupported e = false := by
      intro e he
      rw [eventsIn_append, List.mem_append, perform_eq, perform_eq] at he
      rcases he with he | he
      · exact domainsLog_supported _ _ _ _ _ _ e he
      · exact domainsLog_supported _ _ _ _ _ _ e he
    rw [combinedLine_self hsupported] at hlog
    have hevents := congrArg eventsIn hlog
    rw [eventsIn_append] at hevents
    refine ⟨hevents, ?_⟩
    simp only [perform_totals, Outcome.events_eq, hevents, Summary.ofEvents_append]
  · have hjs := domainLog_missing .lint run .js hn
    have hphp := domainLog_missing .lint run .php hn
    simp [perform_eq, Command.domains, domainsLog, hjs, hphp, Outcome.calls_eq,
      Outcome.events_eq]

/-- A machine without files. -/
def bareHost : Host := ⟨.emptyTree, [], none, false, .ofString "/"⟩

/-- The set-up of a run at the top of a machine. -/
def bareConfiguration : Configuration := .ofSettings (.ofString "/") (.ofString "/") none .none none

/-- Starts no command. -/
def idleRunner : Runner Unit := fun q s => (.error (.tool q.program (.notStarted .notFound)), s)

theorem lint_of_missing_target :
    bareHost.pathExists (bareConfiguration.projectRoot.join (.ofString "a.js")) = false ∧
      (perform (fun _ => bareHost) bareConfiguration .lint (some "a.js") idleRunner ()).events =
        [.resolveFailed .js (.targetNotFound (.ofString "/a.js")),
          .resolveFailed .php (.targetNotFound (.ofString "/a.js"))] := by
  have hmissing :
      bareHost.pathExists (bareConfiguration.projectRoot.join (.ofString "a.js")) = false := by
    cbv
  have hrun := lint_eq_jslint_then_phplint (fun _ => bareHost) bareConfiguration idleRunner ()
  exact ⟨hmissing, (hrun.2.2 "a.js" hmissing).2⟩

end SiteLint.Run
