import SiteLint.Proofs.ReportRules

/-!
Linting PHP as the syntax check with the coding standards check behind it.

The two commands for PHP look up the same targets, and one has a pass more than the other. The
files are the same after the syntax check, so the targets are found again, and what follows is the
other command, run from where the syntax check leaves the runner. It does not matter whether the
syntax check fails.
-/

namespace SiteLint

open Run

variable {σ : Type} {view : σ → Host} {c : Configuration} {run : Runner σ}

/-- The files are as they were after any command. -/
def Runner.LeavesFiles (run : Runner σ) (view : σ → Host) : Prop :=
  ∀ q s, view (run q s).2 = view s

lemma PhpSyntax.view_checkFiles (h : run.LeavesFiles view) (files : List Path) (s : σ) :
    view (checkFiles c run files s).2 = view s := by
  induction files generalizing s with
  | nil => rfl
  | cons file files ih =>
    have hhere : view (run (command c file) s).2 = view s := h _ _
    simp only [checkFiles]
    cases (run (command c file) s).1.bind judge with
    | error e => exact hhere
    | ok messages => exact (ih _).trans hhere

namespace Run

variable {name : Option String}

lemma targets_cs (host : Host) : targets host c .cs name .php = targets host c .phplint name .php :=
  rfl

lemma domainLog_cs_of_nothing {s : σ}
    (h : ∀ ts, targets (view s) c .phplint name .php = .ok ts → ts = []) :
    domainLog view c .cs name run .php s = domainLog view c .phplint name run .php s := by
  unfold domainLog
  rw [targets_cs]
  rcases ht : targets (view s) c .phplint name .php with e | _ | ⟨t, ts⟩
  · rfl
  · rfl
  · exact absurd (h _ ht) (List.cons_ne_nil _ _)

lemma domainLog_phplint (hfiles : run.LeavesFiles view) {s : σ} {t : Target} {ts : List Target}
    (h : targets (view s) c .phplint name .php = .ok (t :: ts)) :
    let after := (Pass.phpSyntax.check (view s) c run (t :: ts) s).2
    domainLog view c .phplint name run .php s =
      (span c run (view s) (t :: ts) .phpSyntax s ++ (domainLog view c .cs name run .php after).1,
        (domainLog view c .cs name run .php after).2) := by
  intro after
  have hview : view after = view s := PhpSyntax.view_checkFiles hfiles _ _
  have hcs : targets (view after) c .cs name .php = .ok (t :: ts) := by rw [hview, targets_cs, h]
  simp only [domainLog, h, hcs, Command.passes, passLog]
  rfl

lemma phplint_log (hfiles : run.LeavesFiles view) {s : σ} {t : Target} {ts : List Target}
    (h : targets (view s) c .phplint name .php = .ok (t :: ts)) :
    let first := Pass.phpSyntax.check (view s) c run (t :: ts) s
    let cs := perform view c .cs name run first.2
    (perform view c .phplint name run s).memory = cs.memory ∧
    (perform view c .phplint name run s).log =
      .event (.passStarted .phpSyntax) ::
        (Pass.phpSyntax.calls (view s) c run (t :: ts) s ++
          .event (passEnd .phpSyntax first.1) :: cs.log) := by
  have hdomain := domainLog_phplint hfiles h
  simp [perform_eq, Command.domains, domainsLog, hdomain, span]

/-- **Syntax first.** Where there is nothing to lint, the two commands for PHP do the same.
Otherwise the one with both passes first runs the syntax check and tells how it ended, and then
does what the other command does from there. -/
theorem phplint_eq_syntax_then_cs (view : σ → Host) (c : Configuration) (name : Option String)
    (run : Runner σ) (s : σ) (hfiles : run.LeavesFiles view) :
    let both := perform view c .phplint name run s
    ((∀ ts, targets (view s) c .phplint name .php = .ok ts → ts = []) →
      both = perform view c .cs name run s) ∧
    ∀ t ts, targets (view s) c .phplint name .php = .ok (t :: ts) →
      let first := Pass.phpSyntax.check (view s) c (loggedRunner run) (t :: ts) (s, [])
      let cs := perform view c .cs name run first.2.1
      both.log =
        .event (.passStarted .phpSyntax) ::
          (first.2.2 ++ .event (passEnd .phpSyntax first.1) :: cs.log) ∧
      both.events = .passStarted .phpSyntax :: passEnd .phpSyntax first.1 :: cs.events ∧
      both.calls = callsIn first.2.2 ++ cs.calls ∧
      both.totals = Summary.zero.addPass first.1 + cs.totals ∧ both.memory = cs.memory := by
  intro both
  refine ⟨fun hnothing => ?_, fun t ts hts => ?_⟩
  · have hcs : domainLog view c .cs name run .php s = domainLog view c .phplint name run .php s :=
      domainLog_cs_of_nothing hnothing
    simp only [both, perform_eq, Command.domains, domainsLog, hcs]
  · obtain ⟨hmemory, hlog⟩ := phplint_log hfiles hts
    have hevents := congrArg eventsIn hlog
    have hcalls := congrArg callsIn hlog
    simp only [eventsIn_event, eventsIn_append, eventsIn_calls, List.nil_append] at hevents
    simp only [callsIn_event, callsIn_append] at hcalls
    have htotals : both.totals = .ofEvents both.events := perform_totals s
    rw [Outcome.events_eq, hevents] at htotals
    have hstart : Summary.ofEvent (.passStarted .phpSyntax) = 0 := rfl
    have hzero : Summary.zero = 0 := rfl
    rw [Summary.ofEvents_cons, Summary.ofEvents_cons, hstart, ← Outcome.events_eq,
      ← perform_totals, ← add_assoc, ← hzero, ← Summary.addPass_eq] at htotals
    rw [Pass.check_logged, List.nil_append]
    exact ⟨hlog, hevents, hcalls, htotals, hmemory⟩

/-- The first command cannot be run, and the second one prints nothing. -/
def brokenThenQuiet : List Runner.Answer := [.failure "no memory", .output ⟨"", some 0⟩]

lemma php_broken :
    Pass.phpSyntax.check phpHost phpConfiguration (loggedRunner .scripted)
        [.file (.ofString "/a.php")] (brokenThenQuiet, []) =
      (.error (.tool "php" (.other "no memory")), [.output ⟨"", some 0⟩],
        [.call ⟨"php", ["-l", "/a.php"], some (.ofString "/")⟩
          (.error (.tool "php" (.other "no memory")))]) := by
  cbv

/-- Where there is no file the two commands do the same. Where the syntax check of one cannot be
run, the standards check is run all the same. -/
theorem phplint_of_broken_check :
    perform (fun _ => phpHost) phpConfiguration .phplint (some "b.php") .scripted brokenThenQuiet =
      perform (fun _ => phpHost) phpConfiguration .cs (some "b.php") .scripted brokenThenQuiet ∧
    (perform (fun _ => phpHost) phpConfiguration .phplint (some "a.php") .scripted
      brokenThenQuiet).events =
      .passStarted .phpSyntax ::
        .passFailed .phpSyntax (.tool "php" (.other "no memory")) ::
          (perform (fun _ => phpHost) phpConfiguration .cs (some "a.php") .scripted
            [.output ⟨"", some 0⟩]).events := by
  have hfiles : Runner.LeavesFiles .scripted fun _ => phpHost := fun _ _ => rfl
  constructor
  · have hmissing :
        phpHost.pathExists (phpConfiguration.projectRoot.join (.ofString "b.php")) = false := by
      cbv
    refine (phplint_eq_syntax_then_cs _ phpConfiguration (some "b.php") _ _ hfiles).1
      fun ts hts => ?_
    simp [targets, Target.resolve, Target.requested, hmissing, Except.map] at hts
  · have hrun := (phplint_eq_syntax_then_cs _ phpConfiguration (some "a.php") _ brokenThenQuiet
      hfiles).2 _ _ php_targets
    rw [php_broken] at hrun
    exact hrun.2.1

end Run

end SiteLint
