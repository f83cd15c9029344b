import Mathlib
import SiteLint.Run

/-!
What the log of a run holds.

A pass writes down the commands it runs and nothing else, and what it writes does not depend on
what was written before. So the log of a run is the logs of its parts, one after the other, and its
totals can be read off the events in it.
-/

namespace SiteLint

open Run

variable {σ : Type}

/-! ### The calls of a pass -/

/-- The call of a command that may not be had. -/
def callOf (run : Runner σ) (cmd : Except Failure ToolCommand) (s : σ) : List LogLine :=
  match cmd with
  | .error _ => []
  | .ok cmd => [.call cmd (run cmd s).1]

/-- The calls of a syntax check, up to the first that cannot be completed. -/
def PhpSyntax.fileCalls (c : Configuration) (run : Runner σ) : List Path → σ → List LogLine
  | [], _ => []
  | file :: files, s =>
    .call (command c file) (run (command c file) s).1 ::
      match (run (command c file) s).1.bind judge with
      | .error _ => []
      | .ok _ => fileCalls c run files (run (command c file) s).2

/-- The calls of a pass. -/
def Pass.calls (host : Host) (c : Configuration) (run : Runner σ) (targets : List Target) :
    Pass → σ → List LogLine
  | eslint => callOf run (Eslint.command host c targets)
  | phpSyntax => PhpSyntax.fileCalls c run (Target.expand host c.phpcs targets)
  | phpStandards => callOf run (CodeSniffer.command host c targets)

lemma PhpSyntax.checkFiles_logged (c : Configuration) (run : Runner σ) (files : List Path) (s : σ)
    (log : List LogLine) :
    checkFiles c (loggedRunner run) files (s, log) =
      ((checkFiles c run files s).1, (checkFiles c run files s).2,
        log ++ fileCalls c run files s) := by
  induction files generalizing s log with
  | nil => simp [checkFiles, fileCalls]
  | cons file files ih =>
    simp only [checkFiles, fileCalls, loggedRunner]
    cases h : (run (command c file) s).1.bind judge with
    | error e => simp
    | ok messages => simp [ih]

lemma Pass.check_logged (host : Host) (c : Configuration) (run : Runner σ) (targets : List Target)
    (p : Pass) (s : σ) (log : List LogLine) :
    p.check host c (loggedRunner run) targets (s, log) =
      ((p.check host c run targets s).1, (p.check host c run targets s).2,
        log ++ p.calls host c run targets s) := by
  cases p with
  | eslint =>
    simp only [check, calls, Eslint.check, callOf]
    cases Eslint.command host c targets <;> simp [loggedRunner]
  | phpSyntax => simp [check, calls, PhpSyntax.check, PhpSyntax.checkFiles_logged]
  | phpStandards =>
    simp only [check, calls, CodeSniffer.check, callOf]
    cases CodeSniffer.command host c targets <;> simp [loggedRunner]

/-! ### Totals as sums -/

namespace Summary

attribute [ext] Summary

instance : Zero Summary := ⟨zero⟩

instance : Add Summary :=
  ⟨fun a b => ⟨a.files + b.files, a.messages + b.messages, a.errors + b.errors⟩⟩

@[simp] lemma files_zero : (0 : Summary).files = 0 := rfl
@[simp] lemma messages_zero : (0 : Summary).messages = 0 := rfl
@[simp] lemma errors_zero : (0 : Summary).errors = 0 := rfl
@[simp] lemma files_add (a b : Summary) : (a + b).files = a.files + b.files := rfl
@[simp] lemma messages_add (a b : Summary) : (a + b).messages = a.messages + b.messages := rfl
@[simp] lemma errors_add (a b : Summary) : (a + b).errors = a.errors + b.errors := rfl

instance : AddCommMonoid Summary where
  add_assoc a b c := by ext <;> simp [Nat.add_assoc]
  zero_add a := by ext <;> simp
  add_zero a := by ext <;> simp
  add_comm a b := by ext <;> simp [Nat.add_comm]
  nsmul := nsmulRec

/-- What one event adds to the totals. -/
def ofEvent : Event → Summary
  | .passFinished _ r => ⟨r.files.length, r.messageCount, 0⟩
  | .passFailed _ _ => ⟨0, 0, 1⟩
  | .resolveFailed _ _ => ⟨0, 0, 1⟩
  | _ => 0

/-- What events add to the totals. -/
def ofEvents (es : List Event) : Summary := (es.map ofEvent).sum

@[simp] lemma ofEvents_nil : ofEvents [] = 0 := rfl

@[simp] lemma ofEvents_cons (e : Event) (es : List Event) :
    ofEvents (e :: es) = ofEvent e + ofEvents es := by
  simp [ofEvents]

@[simp] lemma ofEvents_append (es fs : List Event) :
    ofEvents (es ++ fs) = ofEvents es + ofEvents fs := by
  simp [ofEvents]

lemma addPass_eq (t : Summary) (p : Pass) (outcome : Except Failure Report) :
    t.addPass outcome = t + ofEvent (passEnd p outcome) := by
  cases outcome <;> rfl

end Summary

/-! ### The log of a run, part by part -/

namespace Run

/-- The events in a log. -/
def eventsIn (log : List LogLine) : List Event := log.filterMap LogLine.event?

@[simp] lemma eventsIn_nil : eventsIn [] = [] := rfl
@[simp] lemma eventsIn_event (e : Event) (log : List LogLine) :
    eventsIn (.event e :: log) = e :: eventsIn log := rfl
@[simp] lemma eventsIn_call (q : ToolCommand) (a : Except Failure ToolOutput)
    (log : List LogLine) : eventsIn (.call q a :: log) = eventsIn log := rfl
@[simp] lemma eventsIn_append (log later : List LogLine) :
    eventsIn (log ++ later) = eventsIn log ++ eventsIn later := List.filterMap_append

@[simp] lemma eventsIn_map_event (es : List Event) : eventsIn (es.map .event) = es := by
  induction es with
  | nil => rfl
  | cons e es ih => simp [ih]

/-- The commands in a log. -/
def callsIn (log : List LogLine) : List ToolCommand := log.filterMap LogLine.call?

@[simp] lemma callsIn_nil : callsIn [] = [] := rfl
@[simp] lemma callsIn_event (e : Event) (log : List LogLine) :
    callsIn (.event e :: log) = callsIn log := rfl
@[simp] lemma callsIn_call (q : ToolCommand) (a : Except Failure ToolOutput)
    (log : List LogLine) : callsIn (.call q a :: log) = q :: callsIn log := rfl
@[simp] lemma callsIn_append (log later : List LogLine) :
    callsIn (log ++ later) = callsIn log ++ callsIn later := List.filterMap_append

lemma Outcome.events_eq (o : Outcome σ) : o.events = eventsIn o.log := rfl
lemma Outcome.calls_eq (o : Outcome σ) : o.calls = callsIn o.log := rfl

variable (view : σ → Host) (c : Configuration) (cmd : Command) (name : Option String)
  (run : Runner σ)

/-- The log of one pass: its calls between two events. -/
def span (host : Host) (targets : List Target) (p : Pass) (s : σ) : List LogLine :=
  .event (.passStarted p) ::
    (p.calls host c run targets s ++ [.event (passEnd p (p.check host c run targets s).1)])

/-- The log of passes on the targets of a domain, and the state after them. -/
def passLog (targets : List Target) : List Pass → σ → List LogLine × σ
  | [], s => ([], s)
  | p :: ps, s =>
    let (rest, s') := passLog targets ps (p.check (view s) c run targets s).2
    (span c run (view s) targets p s ++ rest, s')

/-- The event that tells that targets cannot be had, unless it is passed over in silence. -/
def refusal (d : Domain) (e : Failure) : List Event :=
  if e.isSkippable then
    match c.unsupportedTarget with
    | .skip => []
    | .warn => [.skipped d e]
  else [.resolveFailed d e]

/-- The log of one domain. -/
def domainLog (d : Domain) (s : σ) : List LogLine × σ :=
  match targets (view s) c cmd name d with
  | .error e => ((refusal c d e).map .event, s)
  | .ok [] => ([.event (idle c d)], s)
  | .ok (t :: ts) => passLog view c run (t :: ts) (cmd.passes d) s

/-- The log of domains, one after the other. -/
def domainsLog : List Domain → σ → List LogLine × σ
  | [], s => ([], s)
  | d :: ds, s =>
    let (here, s) := domainLog view c cmd name run d s
    let (later, s) := domainsLog ds s
    (here ++ later, s)

variable {view c cmd name run}

@[simp] lemma logged_host (s : σ) (log : List LogLine) : (logged view run).host (s, log) = view s :=
  rfl
@[simp] lemma logged_run : (logged view run).run = loggedRunner run := rfl
@[simp] lemma logged_tell (e : Event) (s : σ) (log : List LogLine) :
    (logged view run).tell e (s, log) = (s, log ++ [.event e]) := rfl

lemma eventsIn_fileCalls (files : List Path) (s : σ) :
    eventsIn (PhpSyntax.fileCalls c run files s) = [] := by
  induction files generalizing s with
  | nil => rfl
  | cons file files ih =>
    simp only [PhpSyntax.fileCalls, eventsIn_call]
    split
    · rfl
    · exact ih _

@[simp] lemma eventsIn_calls (host : Host) (targets : List Target) (p : Pass) (s : σ) :
    eventsIn (p.calls host c run targets s) = [] := by
  cases p with
  | eslint => simp only [Pass.calls, callOf]; split <;> rfl
  | phpSyntax => exact eventsIn_fileCalls _ _
  | phpStandards => simp only [Pass.calls, callOf]; split <;> rfl

@[simp] lemma eventsIn_span (host : Host) (targets : List Target) (p : Pass) (s : σ) :
    eventsIn (span c run host targets p s) =
      [.passStarted p, passEnd p (p.check host c run targets s).1] := by
  simp [span]

lemma mem_eventsIn_passLog {targets : List Target} {ps : List Pass} {s : σ} {e : Event}
    (h : e ∈ eventsIn (passLog view c run targets ps s).1) :
    ∃ p, e = .passStarted p ∨ ∃ outcome, e = passEnd p outcome := by
  induction ps generalizing s with
  | nil => simp [passLog] at h
  | cons p ps ih =>
    simp only [passLog, eventsIn_append, eventsIn_span, List.mem_append, List.mem_cons,
      List.not_mem_nil, or_false] at h
    rcases h with (rfl | rfl) | h
    · exact ⟨p, .inl rfl⟩
    · exact ⟨p, .inr ⟨_, rfl⟩⟩
    · exact ih h

lemma runPasses_logged (targets : List Target) (ps : List Pass) (t : Summary) (s : σ)
    (log : List LogLine) :
    runPasses (logged view run) c targets ps t (s, log) =
      (t + .ofEvents (eventsIn (passLog view c run targets ps s).1),
        (passLog view c run targets ps s).2, log ++ (passLog view c run targets ps s).1) := by
  induction ps generalizing t s log with
  | nil => simp [runPasses, passLog]
  | cons p ps ih =>
    have hstart : Summary.ofEvent (.passStarted p) = 0 := rfl
    simp only [runPasses, logged_host, logged_run, logged_tell, Pass.check_logged, ih, passLog,
      eventsIn_append, eventsIn_span, Summary.addPass_eq t p]
    simp [span, hstart, add_assoc]

lemma runDomain_logged (d : Domain) (t : Summary) (s : σ) (log : List LogLine) :
    runDomain (logged view run) c cmd name d t (s, log) =
      (t + .ofEvents (eventsIn (domainLog view c cmd name run d s).1),
        (domainLog view c cmd name run d s).2,
        log ++ (domainLog view c cmd name run d s).1) := by
  simp only [runDomain, domainLog, logged_host]
  rcases targets (view s) c cmd name d with e | _ | ⟨a, ts⟩
  · have herror : t.addError = t + .ofEvent (.resolveFailed d e) := rfl
    have hskipped : Summary.ofEvent (.skipped d e) = 0 := rfl
    simp only [refusal, logged_tell, eventsIn_map_event]
    by_cases h : e.isSkippable = true
    · cases hp : c.unsupportedTarget <;> simp [h, hskipped]
    · simp [h, herror]
  · have hidle : Summary.ofEvent (idle c d) = 0 := by unfold idle; split <;> rfl
    simp [hidle]
  · exact runPasses_logged _ _ _ _ _

lemma runDomains_logged (ds : List Domain) (t : Summary) (s : σ) (log : List LogLine) :
    runDomains (logged view run) c cmd name ds t (s, log) =
      (t + .ofEvents (eventsIn (domainsLog view c cmd name run ds s).1),
        (domainsLog view c cmd name run ds s).2,
        log ++ (domainsLog view c cmd name run ds s).1) := by
  induction ds generalizing t s log with
  | nil => simp [runDomains, domainsLog]
  | cons d ds ih =>
    simp [runDomains, domainsLog, runDomain_logged, ih, add_assoc]

/-- **A run, part by part.** The log is that of the domains, one after the other, and the totals
are those of the events in it. -/
theorem perform_eq (s : σ) :
    perform view c cmd name run s =
      ⟨.ofEvents (eventsIn (domainsLog view c cmd name run cmd.domains s).1),
        (domainsLog view c cmd name run cmd.domains s).2,
        (domainsLog view c cmd name run cmd.domains s).1⟩ := by
  have hzero : Summary.zero = 0 := rfl
  simp [perform, command, runDomains_logged, hzero]

lemma perform_totals (s : σ) :
    (perform view c cmd name run s).totals =
      .ofEvents (perform view c cmd name run s).events := by
  rw [Outcome.events_eq, perform_eq]

/-! ### Where a call stands -/

variable (view c cmd name run)

lemma passLog_call {targets : List Target} {ps : List Pass} {s : σ} {q : ToolCommand}
    {a : Except Failure ToolOutput} (h : .call q a ∈ (passLog view c run targets ps s).1) :
    ∃ p ∈ ps, ∃ s₁, .call q a ∈ p.calls (view s₁) c run targets s₁ ∧
      span c run (view s₁) targets p s₁ <:+: (passLog view c run targets ps s).1 := by
  induction ps generalizing s with
  | nil => simp [passLog] at h
  | cons p ps ih =>
    simp only [passLog, List.mem_append] at h ⊢
    rcases h with h | h
    · have hcall : .call q a ∈ p.calls (view s) c run targets s := by simpa [span] using h
      exact ⟨p, List.mem_cons_self, s, hcall, (List.prefix_append _ _).isInfix⟩
    · obtain ⟨p', hp', s₁, hcall, hspan⟩ := ih h
      exact ⟨p', List.mem_cons_of_mem _ hp', s₁, hcall,
        hspan.trans (List.suffix_append _ _).isInfix⟩

lemma domainLog_call {d : Domain} {s : σ} {q : ToolCommand} {a : Except Failure ToolOutput}
    (h : .call q a ∈ (domainLog view c cmd name run d s).1) :
    ∃ ts, targets (view s) c cmd name d = .ok ts ∧ ∃ p ∈ cmd.passes d, ∃ s₁,
      .call q a ∈ p.calls (view s₁) c run ts s₁ ∧
        span c run (view s₁) ts p s₁ <:+: (domainLog view c cmd name run d s).1 := by
  unfold domainLog at h ⊢
  rcases ht : targets (view s) c cmd name d with e | _ | ⟨t, ts⟩
  · simp [ht] at h
  · simp [ht] at h
  · simp only [ht] at h ⊢
    exact ⟨_, rfl, passLog_call view c run h⟩

lemma domainsLog_call {ds : List Domain} {s : σ} {q : ToolCommand}
    {a : Except Failure ToolOutput} (h : .call q a ∈ (domainsLog view c cmd name run ds s).1) :
    ∃ d ∈ ds, ∃ s₀ ts, targets (view s₀) c cmd name d = .ok ts ∧ ∃ p ∈ cmd.passes d, ∃ s₁,
      .call q a ∈ p.calls (view s₁) c run ts s₁ ∧
        span c run (view s₁) ts p s₁ <:+: (domainsLog view c cmd name run ds s).1 := by
  induction ds generalizing s with
  | nil => simp [domainsLog] at h
  | cons d ds ih =>
    simp only [domainsLog, List.mem_append] at h ⊢
    rcases h with h | h
    · obtain ⟨ts, hts, p, hp, s₁, hcall, hspan⟩ := domainLog_call view c cmd name run h
      exact ⟨d, List.mem_cons_self, s, ts, hts, p, hp, s₁, hcall,
        hspan.trans (List.prefix_append _ _).isInfix⟩
    · obtain ⟨d', hd', s₀, ts, hts, p, hp, s₁, hcall, hspan⟩ := ih h
      exact ⟨d', List.mem_cons_of_mem _ hd', s₀, ts, hts, p, hp, s₁, hcall,
        hspan.trans (List.suffix_append _ _).isInfix⟩

end Run

end SiteLint
