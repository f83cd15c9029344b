import SiteLint.Proofs.Results
import SiteLint.Proofs.RunLog
import SiteLint.Proofs.TextCut

/-!
Tools that fail and say nothing.

A tool that ends with a status other than 0, or by a signal, and prints nothing but blanks, has not
done its work. A pass must not take that for a clean result, and no pass does but in one case:
ESLint with the status 1. That status stands for findings, and an output without any is read as a
report without files all the same.
-/

namespace SiteLint

open Run

/-! ### What a pass makes of a silent failure -/

/-- The tool failed, or a signal ended it, and it printed nothing but blanks. -/
def ToolOutput.FailedSilently (o : ToolOutput) : Prop :=
  o.status ≠ some 0 ∧ Text.isBlankText o.printed.toList = true

/-- A report without messages. -/
def IsClean (outcome : Except Failure Report) : Prop :=
  ∃ r, outcome = .ok r ∧ r.messageCount = 0

@[simp] lemma not_isClean_error (e : Failure) : ¬ IsClean (.error e) := by
  rintro ⟨r, hr, -⟩
  cases hr

lemma Report.messageCount_eq_zero (r : Report) :
    r.messageCount = 0 ↔ ∀ f ∈ r.files, f.messages = [] := by
  obtain ⟨files⟩ := r
  induction files with
  | nil => simp [messageCount]
  | cons f files ih =>
    simp only [messageCount, List.foldr_cons, Nat.add_eq_zero_iff, List.length_eq_zero_iff,
      List.mem_cons, forall_eq_or_imp] at ih ⊢
    rw [ih]

lemma Eslint.readReport_blank {printed : String}
    (h : Text.isBlankText printed.toList = true) : readReport printed = .ok .empty := by
  simp [readReport, entries, Text.trim_of_blank h, reportOf, Except.map, Report.empty]

lemma Eslint.judge_silent {o : ToolOutput} (h : o.FailedSilently) :
    judge o = .ok .empty ∧ o.status = some 1 ∨ (∃ e, judge o = .error e) ∧ o.status ≠ some 1 := by
  obtain ⟨hs, hb⟩ := h
  unfold judge
  rcases hstatus : o.status with _ | n
  · exact .inr ⟨⟨_, rfl⟩, by simp⟩
  · have h0 : n ≠ 0 := by rintro rfl; exact hs hstatus
    by_cases h1 : n = 1
    · exact .inl ⟨by simp [h1, readReport_blank hb, Except.mapError], by simp [h1]⟩
    · exact .inr ⟨⟨_, by simp only [h0, h1, or_self, if_false]; rfl⟩, by simp [h1]⟩

lemma CodeSniffer.judge_silent {o : ToolOutput} (strip : Bool) (h : o.FailedSilently) :
    ∃ e, judge strip o = .error e := by
  obtain ⟨hs, hb⟩ := h
  have hblank := Text.blank_of_prefix
    (OutputFilter.applyAll_prefix (filters strip) o.printed.toList) hb
  unfold judge
  rcases hstatus : o.status with _ | n
  · exact ⟨_, rfl⟩
  · have h0 : n ≠ 0 := by rintro rfl; exact hs hstatus
    exact ⟨_, by simp only [hblank, h0, if_true, if_false]; rfl⟩

variable {σ : Type} {c : Configuration} {run : Runner σ}

lemma PhpSyntax.checkFiles_silent {files : List Path} {s : σ} {q : ToolCommand} {o : ToolOutput}
    {results : List FileResult} (hq : .call q (.ok o) ∈ fileCalls c run files s)
    (ho : o.FailedSilently) (h : (checkFiles c run files s).1 = .ok results) :
    ∃ f ∈ results, f.messages ≠ [] := by
  induction files generalizing s results with
  | nil => simp [fileCalls] at hq
  | cons file files ih =>
    simp only [fileCalls, List.mem_cons, LogLine.call.injEq] at hq
    simp only [checkFiles] at h
    cases hj : (run (command c file) s).1.bind judge with
    | error e => simp [hj] at h
    | ok messages =>
      simp only [hj] at h hq
      obtain ⟨rest, hrest, rfl⟩ := map_ok_iff.1 h
      rcases hq with ⟨-, hq⟩ | hq
      · -- the call of this file
        rw [← hq] at hj
        refine ⟨_, List.mem_cons_self, ?_⟩
        have hn : o.status ≠ none := by
          intro hn
          simp [Except.bind, judge, hn] at hj
        obtain ⟨n, hn⟩ := Option.ne_none_iff_exists'.1 hn
        have h0 : n ≠ 0 := by rintro rfl; exact ho.1 hn
        have hm : [readMessage o.printed n] = messages := by
          simpa [Except.bind, judge, hn, h0] using hj
        simp [← hm]
      · obtain ⟨f, hf, hm⟩ := ih hq hrest
        exact ⟨f, List.mem_cons_of_mem _ hf, hm⟩

lemma mem_callOf {cmd : Except Failure ToolCommand} {s : σ} {q : ToolCommand}
    {a : Except Failure ToolOutput} (h : .call q a ∈ callOf run cmd s) :
    cmd = .ok q ∧ (run q s).1 = a := by
  cases cmd with
  | error e => simp [callOf] at h
  | ok cmd =>
    obtain ⟨rfl, rfl⟩ : q = cmd ∧ a = (run cmd s).1 := by simpa [callOf] using h
    exact ⟨rfl, rfl⟩

lemma Pass.check_silent {host : Host} {targets : List Target} {p : Pass} {s : σ} {q : ToolCommand}
    {o : ToolOutput} (hq : .call q (.ok o) ∈ p.calls host c run targets s)
    (ho : o.FailedSilently) :
    IsClean (p.check host c run targets s).1 ↔ p = .eslint ∧ o.status = some 1 := by
  cases p with
  | eslint =>
    obtain ⟨hcmd, ha⟩ := mem_callOf hq
    have hcheck : (Pass.eslint.check host c run targets s).1 = Eslint.judge o := by
      simp [check, Eslint.check, hcmd, ha, Except.bind]
    rw [hcheck]
    rcases Eslint.judge_silent ho with ⟨hj, h1⟩ | ⟨⟨e, hj⟩, h1⟩
    · simp [hj, h1, IsClean, Report.empty, Report.messageCount]
    · simp [hj, h1]
  | phpSyntax =>
    simp only [reduceCtorEq, false_and, iff_false]
    rintro ⟨r, hr, hclean⟩
    simp only [check, PhpSyntax.check] at hr
    obtain ⟨results, hf, rfl⟩ := map_ok_iff.1 hr
    obtain ⟨f, hmem, hne⟩ := PhpSyntax.checkFiles_silent hq ho hf
    exact hne ((Report.messageCount_eq_zero _).1 hclean f hmem)
  | phpStandards =>
    obtain ⟨hcmd, ha⟩ := mem_callOf hq
    obtain ⟨e, he⟩ := CodeSniffer.judge_silent c.stripAdvertisement ho
    have hcheck : (Pass.phpStandards.check host c run targets s).1 = .error e := by
      simp [check, CodeSniffer.check, hcmd, ha, Except.bind, he]
    simp [hcheck]

/-! ### Whole runs -/

lemma Summary.ofEvents_of_mem {e : Event} {es : List Event} (h : e ∈ es) :
    ∃ t, ofEvents es = ofEvent e + t := by
  obtain ⟨before, after, rfl⟩ := List.append_of_mem h
  refine ⟨ofEvents before + ofEvents after, ?_⟩
  rw [ofEvents_append, ofEvents_cons, add_left_comm]

lemma isClean_of_exitCode {es : List Event} {p : Pass} {outcome : Except Failure Report}
    (h : (Summary.ofEvents es).exitCode true = 0) (hmem : passEnd p outcome ∈ es) :
    IsClean outcome := by
  have hzero : (Summary.ofEvents es).errors = 0 ∧ (Summary.ofEvents es).messages = 0 := by
    unfold Summary.exitCode at h
    split at h
    · simp at h
    · split at h
      · simp at h
      · simp_all
  obtain ⟨t, ht⟩ := Summary.ofEvents_of_mem hmem
  rw [ht] at hzero
  cases outcome with
  | error e => simp [passEnd, Summary.ofEvent] at hzero
  | ok r =>
    have hr : r.messageCount = 0 := by
      simp only [passEnd, Summary.ofEvent, Summary.messages_add] at hzero
      omega
    exact ⟨r, rfl, hr⟩

/-- A run with a silent failure and the exit status 0 shows the one case in its log. -/
lemma perform_silent {view : σ → Host} {cmd : Command} {name : Option String} {s : σ}
    {q : ToolCommand} {o : ToolOutput}
    (hq : .call q (.ok o) ∈ (perform view c cmd name run s).log) (ho : o.FailedSilently)
    (hexit : (perform view c cmd name run s).totals.exitCode true = 0) :
    o.status = some 1 ∧
      [.event (.passStarted .eslint), .call q (.ok o), .event (.passFinished .eslint .empty)] <:+:
        (perform view c cmd name run s).log := by
  rw [perform_eq] at hq hexit ⊢
  obtain ⟨d, -, s₀, ts, -, p, -, s₁, hcall, hspan⟩ := domainsLog_call view c cmd name run hq
  have hend : passEnd p (p.check (view s₁) c run ts s₁).1 ∈
      eventsIn (domainsLog view c cmd name run cmd.domains s).1 := by
    obtain ⟨before, after, hlog⟩ := hspan
    rw [← hlog]
    simp
  obtain ⟨rfl, h1⟩ := (Pass.check_silent hcall ho).1 (isClean_of_exitCode hexit hend)
  refine ⟨h1, ?_⟩
  obtain ⟨hcmd, ha⟩ := mem_callOf hcall
  have hjudge : Eslint.judge o = .ok .empty := by
    rcases Eslint.judge_silent ho with ⟨hj, -⟩ | ⟨-, hne⟩
    · exact hj
    · exact absurd h1 hne
  have hfull : span c run (view s₁) ts .eslint s₁ =
      [.event (.passStarted .eslint), .call q (.ok o), .event (.passFinished .eslint .empty)] := by
    simp [span, Pass.calls, callOf, Pass.check, Eslint.check, hcmd, ha, Except.bind, hjudge,
      passEnd]
  rw [← hfull]
  exact hspan

/-- **Silent failures.** A pass in which a tool failed silently is clean in one case only, that of
ESLint with the status 1; and a run with such a call ends with the exit status 0, when findings
count, only where the log shows that case. -/
theorem silent_failure_clean_iff :
    (∀ (host : Host) (c : Configuration) (run : Runner σ) (targets : List Target) (p : Pass)
        (s : σ) (q : ToolCommand) (o : ToolOutput),
      let r := p.check host c (loggedRunner run) targets (s, [])
      .call q (.ok o) ∈ r.2.2 → o.FailedSilently →
        (IsClean r.1 ↔ p = .eslint ∧ o.status = some 1)) ∧
    (∀ (view : σ → Host) (c : Configuration) (cmd : Command) (name : Option String)
        (run : Runner σ) (s : σ) (q : ToolCommand) (o : ToolOutput),
      let r := perform view c cmd name run s
      .call q (.ok o) ∈ r.log → o.FailedSilently → c.failOnViolations = true →
        r.totals.exitCode c.failOnViolations = 0 →
        o.status = some 1 ∧
          [.event (.passStarted .eslint), .call q (.ok o),
            .event (.passFinished .eslint .empty)] <:+: r.log) := by
  constructor
  · intro host c run targets p s q o r hq ho
    have hr : r = _ := Pass.check_logged host c run targets p s []
    rw [hr] at hq ⊢
    exact Pass.check_silent (by simpa using hq) ho
  · intro view c cmd name run s q o r hq ho hcount hexit
    rw [hcount] at hexit
    exact perform_silent hq ho hexit

/-- A machine with a script and the rule-set for it. -/
def scriptHost : Host where
  tree := .directory [] [.file "a.js".toList [],
    .directory "src".toList [.file ".eslintrc".toList []]]
  workingDirectory := []
  pluginHome := none
  noColor := false
  programDirectory := .ofString "/"

/-- A project at the top of a machine, with all else built in. -/
def topConfiguration : Configuration := .ofSettings (.ofString "/") (.ofString "/") none .none none

/-- Ends every command with a status and prints nothing. -/
def silentRunner (status : Int) : Runner Unit := fun _ s => (.ok ⟨"", some status⟩, s)

/-- The command that is run for the script. -/
def scriptCommand : ToolCommand :=
  ⟨"eslint", ["--config", "/src/.eslintrc", "--env", "browser", "--format", "json", "--ext", ".js",
    "/a.js"], some (.ofString "/")⟩

lemma script_targets :
    Run.targets scriptHost topConfiguration .jslint (some "a.js") .js =
      .ok [.file (.ofString "/a.js")] := by
  have hpath : topConfiguration.projectRoot.join (.ofString "a.js") = .ofString "/a.js" := by cbv
  have hexists : scriptHost.pathExists (.ofString "/a.js") = true := by cbv
  have hdirectory : scriptHost.isDirectory (.ofString "/a.js") = false := by cbv
  have haccepts : topConfiguration.eslint.accepts (.ofString "/a.js") = true := by cbv
  simp [Run.targets, Target.resolve, Target.requested, Domain.config, hpath, hexists, hdirectory,
    haccepts, Except.map]

lemma script_command :
    Eslint.command scriptHost topConfiguration [.file (.ofString "/a.js")] = .ok scriptCommand := by
  cbv

lemma silentRunner_failed (status : Int) (h : status ≠ 0) :
    (ToolOutput.mk "" (some status)).FailedSilently :=
  ⟨by simpa using h, rfl⟩

lemma script_check (status : Int) :
    Pass.eslint.check scriptHost topConfiguration (loggedRunner (silentRunner status))
        [.file (.ofString "/a.js")] ((), []) =
      (Eslint.judge ⟨"", some status⟩, (), [.call scriptCommand (.ok ⟨"", some status⟩)]) := by
  simp [Pass.check, Eslint.check, script_command, loggedRunner, silentRunner, Except.bind]

lemma script_perform :
    perform (fun _ : Unit => scriptHost) topConfiguration .jslint (some "a.js") (silentRunner 1)
        () =
      ⟨0, (), [.event (.passStarted .eslint), .call scriptCommand (.ok ⟨"", some 1⟩),
        .event (.passFinished .eslint .empty)]⟩ := by
  have hj : Eslint.judge ⟨"", some 1⟩ = .ok .empty := by cbv
  have htotals : Summary.ofEvents [.passStarted .eslint, .passFinished .eslint .empty] = 0 := rfl
  simp [perform_eq, Command.domains, domainsLog, domainLog, script_targets, Command.passes, passLog,
    span, Pass.calls, callOf, script_command, silentRunner, Pass.check, Eslint.check, Except.bind,
    hj, passEnd, htotals, -Summary.ofEvents_cons]

theorem silent_failure_of_script :
    ¬ IsClean (Pass.eslint.check scriptHost topConfiguration (loggedRunner (silentRunner 2))
        [.file (.ofString "/a.js")] ((), [])).1 ∧
      (perform (fun _ : Unit => scriptHost) topConfiguration .jslint (some "a.js") (silentRunner 1)
        ()).totals.exitCode topConfiguration.failOnViolations = 0 ∧
      [.event (.passStarted .eslint), .call scriptCommand (.ok ⟨"", some 1⟩),
        .event (.passFinished .eslint .empty)] <:+:
          (perform (fun _ : Unit => scriptHost) topConfiguration .jslint (some "a.js")
            (silentRunner 1) ()).log := by
  have hexit : (perform (fun _ : Unit => scriptHost) topConfiguration .jslint (some "a.js")
      (silentRunner 1) ()).totals.exitCode topConfiguration.failOnViolations = 0 := by
    rw [script_perform]
    rfl
  refine ⟨?_, hexit, ?_⟩
  · have h := silent_failure_clean_iff.1 scriptHost topConfiguration (silentRunner 2)
      [.file (.ofString "/a.js")] .eslint () scriptCommand ⟨"", some 2⟩
      (by simp [script_check]) (silentRunner_failed 2 (by decide))
    rw [h]
    decide
  · exact (silent_failure_clean_iff.2 (fun _ => scriptHost) topConfiguration .jslint
      (some "a.js") (silentRunner 1) () scriptCommand ⟨"", some 1⟩
      (by simp [script_perform]) (silentRunner_failed 1 (by decide)) rfl hexit).2

/-- ESLint can end with the status 1 and without a word, and both the pass and the run are clean. -/
theorem eslint_hides_silent_failure :
    (¬ ∀ (host : Host) (c : Configuration) (run : Runner Unit) (targets : List Target) (p : Pass)
        (s : Unit) (q : ToolCommand) (o : ToolOutput),
      let r := p.check host c (loggedRunner run) targets (s, [])
      .call q (.ok o) ∈ r.2.2 → o.FailedSilently → ¬ IsClean r.1) ∧
    ¬ ∀ (view : Unit → Host) (c : Configuration) (cmd : Command) (name : Option String)
        (run : Runner Unit) (s : Unit) (q : ToolCommand) (o : ToolOutput),
      let r := perform view c cmd name run s
      .call q (.ok o) ∈ r.log → o.FailedSilently → c.failOnViolations = true →
        r.totals.exitCode c.failOnViolations ≠ 0 := by
  constructor
  · intro h
    refine h scriptHost topConfiguration (silentRunner 1) [.file (.ofString "/a.js")] .eslint ()
      scriptCommand ⟨"", some 1⟩ (by simp [script_check]) (silentRunner_failed 1 (by decide)) ?_
    rw [script_check]
    exact ⟨.empty, by cbv, rfl⟩
  · intro h
    refine h (fun _ => scriptHost) topConfiguration .jslint (some "a.js") (silentRunner 1) ()
      scriptCommand ⟨"", some 1⟩ (by simp [script_perform]) (silentRunner_failed 1 (by decide))
      rfl ?_
    rw [script_perform]
    rfl

end SiteLint
