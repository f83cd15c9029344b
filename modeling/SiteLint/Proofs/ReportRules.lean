import SiteLint.Proofs.Advertisement
import SiteLint.Proofs.DocumentValues
import SiteLint.Proofs.PathText
import SiteLint.Proofs.RunProtocol

/-!
What holds of the reports of every run, whatever the tools print.

Each message stands at a line and a column counted from 1. The syntax of a file is judged by one
message at most, and that one is fatal. A standards report only warns; it has each path once, and
no file that Drupal writes itself.
-/

namespace SiteLint

/-- The pattern is well written, and the text matches it. -/
def Glob.Matches (pattern : String) (cs : List Char) : Prop :=
  ∃ p, compile? pattern.toList = some p ∧ p.accepts cs = true

/-- The message stands at a line and a column counted from 1. -/
def Message.Placed (m : Message) : Prop := 1 ≤ m.line ∧ 1 ≤ m.column

/-- The messages for a file whose syntax was checked: none, or a fatal one for a whole line. -/
def PhpSyntax.IsVerdict (ms : List Message) : Prop :=
  ms.length ≤ 1 ∧ ∀ m ∈ ms, m.severity = .fatal ∧ m.column = 1 ∧ m.rule = none

/-- A report on coding standards as it may be shown. -/
structure CodeSniffer.Presentable (r : Report) : Prop where
  warnings : ∀ f ∈ r.files, ∀ m ∈ f.messages, m.severity = .warning
  once : (r.files.map (·.path)).Nodup
  written : ∀ f ∈ r.files, ∀ n, (Path.ofString f.path).fileName? = some n →
    ∀ pattern ∈ generatedPatterns, ¬ Glob.Matches pattern (Text.Utf8.lenientText n)

/-- What holds of a report of one pass and not of the others. -/
def Report.Obeys (r : Report) : Pass → Prop
  | .eslint => True
  | .phpSyntax => ∀ f ∈ r.files, PhpSyntax.IsVerdict f.messages
  | .phpStandards => CodeSniffer.Presentable r

lemma Message.placed_located (line column : Nat) (severity : Severity) (text : String)
    (rule : Option String) : (located line column severity text rule).Placed :=
  ⟨le_max_right _ _, le_max_right _ _⟩

/-! ### ESLint -/

lemma Eslint.placed_of_readReport {printed : String} {r : Report}
    (h : readReport printed = .ok r) : ∀ f ∈ r.files, ∀ m ∈ f.messages, m.Placed := by
  obtain ⟨es, -, rfl⟩ := map_ok_iff.1 h
  intro f hf m hm
  obtain ⟨e, -, rfl⟩ := List.mem_map.1 hf
  obtain ⟨problem, -, rfl⟩ := List.mem_map.1 hm
  exact Message.placed_located _ _ _ _ _

lemma Eslint.readReport_of_judge {o : ToolOutput} {r : Report} (h : judge o = .ok r) :
    readReport o.printed = .ok r := by
  unfold judge at h
  split at h
  · cases h
  · split at h
    · exact mapError_ok_iff.1 h
    · cases h

/-! ### The syntax check -/

namespace PhpSyntax

lemma readMessage_eq (printed : String) (status : Int) :
    ∃ line text, readMessage printed status = Message.located line 1 .fatal text none := by
  unfold readMessage
  split
  · exact ⟨_, _, rfl⟩
  · split
    · exact ⟨_, _, rfl⟩
    · exact ⟨_, _, rfl⟩

lemma judge_ok {o : ToolOutput} {ms : List Message} (h : judge o = .ok ms) :
    IsVerdict ms ∧ ∀ m ∈ ms, m.Placed := by
  unfold judge at h
  split at h
  · cases h
  · rename_i n _
    obtain ⟨line, text, hread⟩ := readMessage_eq o.printed n
    cases h
    split
    · exact ⟨⟨by simp, by simp⟩, by simp⟩
    · rw [hread]
      refine ⟨⟨by simp, ?_⟩, ?_⟩
      · simp [Message.located]
      · simpa using Message.placed_located _ _ _ _ _

variable {σ : Type} {c : Configuration} {run : Runner σ}

lemma exists_judge_of_checkFiles {files : List Path} {s : σ} {results : List FileResult}
    (h : (checkFiles c run files s).1 = .ok results) :
    ∀ f ∈ results, ∃ o, judge o = .ok f.messages := by
  induction files generalizing s results with
  | nil =>
    obtain rfl : [] = results := by simpa [checkFiles] using h
    simp
  | cons file files ih =>
    simp only [checkFiles] at h
    cases hj : (run (command c file) s).1.bind judge with
    | error e => simp [hj] at h
    | ok messages =>
      simp only [hj] at h
      obtain ⟨rest, hrest, rfl⟩ := map_ok_iff.1 h
      obtain ⟨o, -, ho⟩ := bind_ok_iff.1 hj
      rw [List.forall_mem_cons]
      exact ⟨⟨o, ho⟩, ih hrest⟩

end PhpSyntax

/-! ### The standards check -/

lemma Json.map_members {ms : List (Key × Json)} {r : Record Json}
    (h : (obj ms).members? = some r) : r.map (fun m => some m.1) = ms.map (·.1) := by
  simp only [members?] at h
  induction ms generalizing r with
  | nil =>
    obtain rfl : [] = r := by simpa using h
    rfl
  | cons m ms ih =>
    obtain ⟨k, v⟩ := m
    simp only [List.mapM_cons, Option.pure_def, Option.bind_eq_bind, Option.bind_eq_some_iff,
      Option.map_eq_some_iff] at h
    obtain ⟨-, ⟨name, rfl, rfl⟩, rest, hrest, h⟩ := h
    cases h
    simp [ih hrest]

namespace CodeSniffer

lemma nodup_fileEntries {v : Json} {entries : Record Json} (h : fileEntries? v = some entries) :
    (entries.map (·.1)).Nodup := by
  simp only [fileEntries?, Option.bind_eq_bind, Option.bind_eq_some_iff] at h
  obtain ⟨ms, -, field, -, h⟩ := h
  split at h
  · cases h
    exact List.nodup_nil
  · obtain ⟨sound, hsound, hmembers⟩ := Option.bind_eq_some_iff.1 h
    have hkeys := Json.nodup_soundMembers hsound
    rw [← Json.map_members hmembers] at hkeys
    have hsome : entries.map (fun m => some m.1) = (entries.map (·.1)).map some := by simp
    rw [hsome] at hkeys
    exact hkeys.of_map _
  · cases h

lemma fileResult_ok {entry : String × Json} {f : FileResult} (h : fileResult entry = .ok f) :
    f.path = entry.1 ∧ ∀ m ∈ f.messages, m.Placed ∧ m.severity = .warning := by
  unfold fileResult at h
  split at h
  · cases h
    refine ⟨rfl, fun m hm => ?_⟩
    obtain ⟨violation, -, rfl⟩ := List.mem_map.1 hm
    exact ⟨Message.placed_located _ _ _ _ _, rfl⟩
  · cases h

lemma not_matches_of_not_isGenerated {path : String} (h : isGenerated path = false) {n : Name}
    (hn : (Path.ofString path).fileName? = some n) {pattern : String}
    (hpattern : pattern ∈ generatedPatterns) :
    ¬ Glob.Matches pattern (Text.Utf8.lenientText n) := by
  rintro ⟨p, hp, haccepts⟩
  have hmem : p ∈ generatedNames := List.mem_filterMap.2 ⟨pattern, hpattern, hp⟩
  have hnot : p.accepts (Text.Utf8.lenientText n) = false := by
    simp only [isGenerated, hn, Option.getD_some, List.any_eq_false] at h
    simpa using h p hmem
  rw [hnot] at haccepts
  cases haccepts

lemma presentable_reportOf {entries : Record Json} {r : Report}
    (hentries : (entries.map (·.1)).Nodup) (h : reportOf entries = .ok r) :
    Presentable r ∧ ∀ f ∈ r.files, ∀ m ∈ f.messages, m.Placed := by
  obtain ⟨files, hfiles, rfl⟩ := map_ok_iff.1 h
  have hkept : List.Forall₂ (fun e f => isGenerated e.1 = false ∧ fileResult e = .ok f)
      (entries.filter fun e => !isGenerated e.1) files := by
    refine (List.forall₂_and_left _ _).2 ⟨fun e he => ?_, mapM_ok_iff.1 hfiles⟩
    simpa using (List.mem_filter.1 he).2
  have hpaths : (entries.filter fun e => !isGenerated e.1).map (·.1) = files.map (·.path) := by
    rw [← List.forall₂_eq_eq_eq, List.forall₂_map_left_iff, List.forall₂_map_right_iff]
    exact hkept.imp fun e f he => (fileResult_ok he.2).1.symm
  have hfrom : ∀ f ∈ files, ∃ e, isGenerated e.1 = false ∧ fileResult e = .ok f := by
    have hback : List.Forall₂ (fun f e => isGenerated e.1 = false ∧ fileResult e = .ok f) files
        (entries.filter fun e => !isGenerated e.1) := .flip hkept
    intro f hf
    obtain ⟨e, -, he⟩ := exists_of_forall₂ hback hf
    exact ⟨e, he⟩
  refine ⟨⟨fun f hf m hm => ?_, ?_, fun f hf n hn pattern hpattern => ?_⟩, fun f hf m hm => ?_⟩
  · obtain ⟨e, -, he⟩ := hfrom f hf
    exact ((fileResult_ok he).2 m hm).2
  · rw [← hpaths]
    exact hentries.sublist (List.filter_sublist.map _)
  · obtain ⟨e, hwritten, he⟩ := hfrom f hf
    rw [← (fileResult_ok he).1] at hwritten
    exact not_matches_of_not_isGenerated hwritten hn hpattern
  · obtain ⟨e, -, he⟩ := hfrom f hf
    exact ((fileResult_ok he).2 m hm).1

lemma presentable_of_judge {strip : Bool} {o : ToolOutput} {r : Report}
    (h : judge strip o = .ok r) : Presentable r ∧ ∀ f ∈ r.files, ∀ m ∈ f.messages, m.Placed := by
  unfold judge at h
  split at h
  · cases h
  · dsimp only at h
    split at h
    · split at h
      · -- nothing is reported
        cases h
        exact ⟨⟨by simp [Report.empty], by simp [Report.empty], by simp [Report.empty]⟩,
          by simp [Report.empty]⟩
      · cases h
    · have hread := mapError_ok_iff.1 h
      unfold readReport at hread
      split at hread
      · cases hread
      · split at hread
        · cases hread
        · exact presentable_reportOf (nodup_fileEntries ‹_›) hread

end CodeSniffer

/-! ### Every run -/

variable {σ : Type} {c : Configuration} {run : Runner σ}

lemma Pass.obeys_of_check {host : Host} {targets : List Target} {p : Pass} {s : σ} {r : Report}
    (h : (p.check host c run targets s).1 = .ok r) :
    (∀ f ∈ r.files, ∀ m ∈ f.messages, m.Placed) ∧ r.Obeys p := by
  cases p with
  | eslint =>
    simp only [check, Eslint.check] at h
    split at h
    · cases h
    · obtain ⟨o, -, hjudge⟩ := bind_ok_iff.1 h
      exact ⟨Eslint.placed_of_readReport (Eslint.readReport_of_judge hjudge), trivial⟩
  | phpSyntax =>
    simp only [check, PhpSyntax.check] at h
    obtain ⟨results, hresults, rfl⟩ := map_ok_iff.1 h
    have hall (f : FileResult) (hf : f ∈ results) :
        PhpSyntax.IsVerdict f.messages ∧ ∀ m ∈ f.messages, m.Placed := by
      obtain ⟨o, ho⟩ := PhpSyntax.exists_judge_of_checkFiles hresults f hf
      exact PhpSyntax.judge_ok ho
    exact ⟨fun f hf => (hall f hf).2, fun f hf => (hall f hf).1⟩
  | phpStandards =>
    simp only [check, CodeSniffer.check] at h
    split at h
    · cases h
    · obtain ⟨o, -, hjudge⟩ := bind_ok_iff.1 h
      exact (CodeSniffer.presentable_of_judge hjudge).symm

namespace Run

variable {view : σ → Host} {cmd : Command} {name : Option String}

lemma PassPairs.exists_check {targets : List Target} {ps : List Pass} {s₀ s₁ : σ}
    {es : List Event} (h : PassPairs view c run targets ps s₀ es s₁) {p : Pass} {r : Report}
    (hr : .passFinished p r ∈ es) : ∃ s, (p.check (view s) c run targets s).1 = .ok r := by
  induction h with
  | nil => cases hr
  | @finished p' _ s _ _ r' _ here _ ih =>
    rcases List.mem_cons.1 hr with hr | hr
    · cases hr
    · rcases List.mem_cons.1 hr with hr | hr
      · cases hr
        exact ⟨s, congrArg Prod.fst here⟩
      · exact ih hr
  | failed _ _ ih =>
    rcases List.mem_cons.1 hr with hr | hr
    · cases hr
    · rcases List.mem_cons.1 hr with hr | hr
      · cases hr
      · exact ih hr

lemma Block.exists_check {d : Domain} {s₀ s₁ : σ} {es : List Event} {f : Fate}
    (h : Block view c run cmd name d s₀ es s₁ f) {p : Pass} {r : Report}
    (hr : .passFinished p r ∈ es) :
    ∃ targets s, (p.check (view s) c run targets s).1 = .ok r := by
  cases f with
  | passedOver => obtain ⟨e, -, -, -, rfl, -⟩ := h; cases hr
  | skipped => obtain ⟨e, -, -, -, rfl, -⟩ := h; simp at hr
  | refused => obtain ⟨e, -, -, rfl, -⟩ := h; simp at hr
  | noTargets => obtain ⟨-, -, -, rfl, -⟩ := h; simp at hr
  | noMatches => obtain ⟨-, -, -, rfl, -⟩ := h; simp at hr
  | linted =>
    obtain ⟨targets, -, -, hpairs⟩ := h
    exact ⟨targets, hpairs.exists_check hr⟩

lemma Blocks.exists_check {ds : List Domain} {s₀ s₁ : σ} {blocks : List (List Event)}
    (h : Blocks view c run cmd name ds s₀ blocks s₁) {p : Pass} {r : Report}
    (hr : .passFinished p r ∈ blocks.flatten) :
    ∃ targets s, (p.check (view s) c run targets s).1 = .ok r := by
  induction h with
  | nil => cases hr
  | cons here _ ih =>
    rw [List.flatten_cons, List.mem_append] at hr
    rcases hr with hr | hr
    · obtain ⟨f, hf⟩ := here.exists
      exact hf.exists_check hr
    · exact ih hr

/-- **Reports of a run.** Whatever the tools answer, a report that a run shows keeps to the rules
for all reports and to those of its pass. -/
theorem finished_report_obeys (view : σ → Host) (c : Configuration) (cmd : Command)
    (name : Option String) (run : Runner σ) (s : σ) {p : Pass} {r : Report}
    (h : .passFinished p r ∈ (perform view c cmd name run s).events) :
    (∀ f ∈ r.files, ∀ m ∈ f.messages, m.Placed) ∧ r.Obeys p := by
  obtain ⟨blocks, hblocks, hevents⟩ := @domainsLog_blocks σ view c run cmd name cmd.domains s
  rw [Outcome.events_eq, perform_eq, hevents] at h
  obtain ⟨targets, s', hcheck⟩ := hblocks.exists_check h
  exact Pass.obeys_of_check hcheck

/-- A machine with one file, whose top directory is the coding standard. -/
def phpHost : Host := ⟨.directory [] [.file "a.php".toList []], [], none, false, .ofString "/"⟩

/-- The set-up for that standard, with all else built in. -/
def phpConfiguration : Configuration :=
  .ofSettings (.ofString "/") (.ofString "/") none
    { Settings.none with phpcsStandard := some "/" } none

/-- What the standards check prints: a path given twice, a generated file, and a line 0. -/
def tangledFindings : String :=
  "\x7b\"files\":\x7b\"a.php\":0,\"b.features.inc\":0," ++
    "\"a.php\":\x7b\"messages\":[\x7b\"message\":\"No\",\"line\":0\x7d]\x7d\x7d\x7d"

/-- What is found under the path that was given twice. -/
def tangledEntry : Json :=
  .record [("messages", .arr [.record [("message", .text "No"), ("line", .nat 0)]])]

/-- What PHP prints. -/
def brokenFile : String := "Parse error: no end in a on line 0\n"

/-- Finds an error in every file, and gives the findings above. -/
def complainingRunner : Runner Unit := fun cmd s =>
  (.ok ⟨if cmd.program = "php" then brokenFile else tangledFindings, some 1⟩, s)

def syntaxReport : Report := ⟨[⟨"/a.php", [⟨1, 1, .fatal, "no end", none⟩]⟩]⟩

def standardsReport : Report := ⟨[⟨"a.php", [⟨1, 1, .warning, "No", none⟩]⟩]⟩

lemma php_targets :
    targets phpHost phpConfiguration .phplint (some "a.php") .php =
      .ok [.file (.ofString "/a.php")] := by
  have hpath : phpConfiguration.projectRoot.join (.ofString "a.php") = .ofString "/a.php" := by cbv
  have hexists : phpHost.pathExists (.ofString "/a.php") = true := by cbv
  have hdirectory : phpHost.isDirectory (.ofString "/a.php") = false := by cbv
  have haccepts : phpConfiguration.phpcs.accepts (.ofString "/a.php") = true := by cbv
  simp [targets, Target.resolve, Target.requested, Domain.config, hpath, hexists, hdirectory,
    haccepts, Except.map]

lemma php_syntax :
    Pass.phpSyntax.check phpHost phpConfiguration complainingRunner
      [.file (.ofString "/a.php")] () = (.ok syntaxReport, ()) := by
  have hmessage : PhpSyntax.readMessage brokenFile 1 = ⟨1, 1, .fatal, "no end", none⟩ := by
    decide +kernel
  have hjudge : PhpSyntax.judge ⟨brokenFile, some 1⟩ = .ok [⟨1, 1, .fatal, "no end", none⟩] := by
    simp [PhpSyntax.judge, hmessage]
  have hrun (file : Path) : complainingRunner (PhpSyntax.command phpConfiguration file) () =
      (.ok ⟨brokenFile, some 1⟩, ()) := rfl
  simp [Pass.check, PhpSyntax.check, Target.expand, Target.files, PhpSyntax.checkFiles, hrun,
    Except.bind, hjudge, Except.map, syntaxReport, Path.toString_ofString]

set_option maxRecDepth 4000 in
lemma tangledFindings_read :
    CodeSniffer.readReport tangledFindings = .ok standardsReport := by
  have hdocument : (Json.read? (Text.trim tangledFindings.toList)).bind CodeSniffer.fileEntries? =
      some [("a.php", tangledEntry), ("b.features.inc", .nat 0)] := by cbv
  have hgenerated : CodeSniffer.isGenerated "b.features.inc" = true := by cbv
  have hwritten : CodeSniffer.isGenerated "a.php" = false := by cbv
  have hresult : CodeSniffer.fileResult ("a.php", tangledEntry) =
      .ok ⟨"a.php", [⟨1, 1, .warning, "No", none⟩]⟩ := by decide +kernel
  obtain ⟨v, hv, hentries⟩ := Option.bind_eq_some_iff.1 hdocument
  simp [CodeSniffer.readReport, hv, hentries, CodeSniffer.reportOf, hgenerated, hwritten, hresult,
    Except.map, standardsReport, bind, Except.bind, pure, Except.pure]

lemma php_standards :
    Pass.phpStandards.check phpHost phpConfiguration complainingRunner
      [.file (.ofString "/a.php")] () = (.ok standardsReport, ()) := by
  have hkept : OutputFilter.applyAll (CodeSniffer.filters true) tangledFindings.toList =
      tangledFindings.toList := by decide +kernel
  have hblank : Text.isBlankText tangledFindings.toList = false := by decide +kernel
  have hjudge : CodeSniffer.judge true ⟨tangledFindings, some 1⟩ = .ok standardsReport := by
    rw [CodeSniffer.judge_of_kept hkept hblank, String.ofList_toList, tangledFindings_read]
    rfl
  have hexists : phpHost.pathExists phpConfiguration.phpcs.configPath = true := by cbv
  have hstrip : phpConfiguration.stripAdvertisement = true := rfl
  obtain ⟨cmd, hcmd, hrun⟩ : ∃ cmd,
      CodeSniffer.command phpHost phpConfiguration [.file (.ofString "/a.php")] = .ok cmd ∧
        complainingRunner cmd () = (.ok ⟨tangledFindings, some 1⟩, ()) := by
    unfold CodeSniffer.command
    rw [hexists]
    refine ⟨_, rfl, ?_⟩
    have hprogram : phpConfiguration.tools.phpcs ≠ "php" := by decide +kernel
    simp only [complainingRunner, hprogram, if_false]
  simp only [Pass.check, CodeSniffer.check, hcmd, hrun, Except.bind, hstrip, hjudge]

theorem finished_reports_of_php :
    let es := (perform (fun _ => phpHost) phpConfiguration .phplint (some "a.php")
      complainingRunner ()).events
    (.passFinished .phpSyntax syntaxReport ∈ es ∧ syntaxReport.Obeys .phpSyntax) ∧
      .passFinished .phpStandards standardsReport ∈ es ∧
        standardsReport.Obeys .phpStandards := by
  intro es
  have hes : es = [.passStarted .phpSyntax, .passFinished .phpSyntax syntaxReport,
      .passStarted .phpStandards, .passFinished .phpStandards standardsReport] := by
    simp [es, Outcome.events_eq, perform_eq, Command.domains, domainsLog, domainLog, php_targets,
      Command.passes, passLog, php_syntax, php_standards, passEnd]
  have hcheck : .passFinished .phpSyntax syntaxReport ∈ es := by simp [hes]
  have hstandards : .passFinished .phpStandards standardsReport ∈ es := by simp [hes]
  exact ⟨⟨hcheck, (finished_report_obeys _ _ _ _ _ _ hcheck).2⟩,
    hstandards, (finished_report_obeys _ _ _ _ _ _ hstandards).2⟩

end Run

end SiteLint
