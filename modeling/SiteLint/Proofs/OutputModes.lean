import SiteLint.Program
import SiteLint.Proofs.DocumentLookup
import SiteLint.Proofs.RunFootprint

/-!
The form of the output, and what does not depend on it.

Plain text and the document tell of the same run: the same commands are run, the exit status is
the same, and the reports in the document are those that the plain lines show. The totals in the
document are what its own entries add up to.
-/

namespace SiteLint

/-! ### What a run makes of the form of the output -/

/-- The set-up with another form of the output. -/
def Configuration.withOutput (c : Configuration) (output : String) : Configuration :=
  { c with output := output }

lemma Configuration.resolve_output (host : Host) (root plugin output : Option String) :
    resolve host ⟨root, plugin, output⟩ =
      (resolve host ⟨root, plugin, none⟩).map fun c => c.withOutput (output.getD c.output) := by
  have hset (rootPath pluginPath : Path) (source : Option Path) (s : Settings) :
      ofSettings rootPath pluginPath source s output =
        (ofSettings rootPath pluginPath source s none).withOutput
          (output.getD (ofSettings rootPath pluginPath source s none).output) := by
    cases output <;> rfl
  unfold resolve
  cases (host.canonical (.ofString (root.getD "."))).mapError Failure.io with
  | error e => rfl
  | ok start =>
    cases hload : Settings.load host (Project.rootFrom host start) with
    | error e => simp [hload, bind, Except.bind, Except.map]
    | ok loaded =>
      cases loaded with
      | none => simp [hload, bind, Except.bind, Except.map, hset]
      | some loaded => simp [hload, bind, Except.bind, Except.map, hset]

variable {σ : Type}

namespace Run

lemma perform_withOutput (view : σ → Host) (c : Configuration) (output : String) (cmd : Command)
    (name : Option String) (run : Runner σ) (s : σ) :
    perform view (c.withOutput output) cmd name run s = perform view c cmd name run s := by
  have hagree : ∀ d ∈ cmd.domains,
      d.Agree (c.withOutput output) c ∧ d.SameTargets name (c.withOutput output) c :=
    fun d _ => d.agree_of_switches rfl rfl rfl rfl rfl rfl
  exact perform_congr hagree rfl s

end Run

namespace Program

/-! ### Plain lines -/

lemma foldl_append_output (ls : List Lines) (a : Lines) :
    (ls.foldl .append a).output = a.output ++ ls.flatMap (·.output) := by
  induction ls generalizing a with
  | nil => simp
  | cons l ls ih => simp [ih, Lines.append]

lemma eventLines_output (host : Host) (words : Failure → String) (output : String) (e : Event) :
    (eventLines host words output e).output =
      (Run.reports [e]).flatMap fun x =>
        Console.reportLines host.workingPath (colours host output) x.2 := by
  cases e <;> simp [eventLines, Run.reports, Lines.out, Lines.err]

lemma plainLines_output (host : Host) (words : Failure → String) (c : Configuration)
    (es : List Event) :
    ((es.map (eventLines host words c.output)).foldl .append (settingsNote host c)).output =
      (Run.reports es).flatMap fun x =>
        Console.reportLines host.workingPath (colours host c.output) x.2 := by
  have hnote : (settingsNote host c).output = [] := by
    unfold settingsNote
    split <;> rfl
  rw [foldl_append_output, hnote, List.nil_append]
  induction es with
  | nil => rfl
  | cons e es ih =>
    rw [Run.reports_cons, List.flatMap_append, ← eventLines_output host words, ← ih]
    rfl

end Program

/-! ### The document -/

lemma Report.messageCount_eq (r : Report) :
    r.messageCount = (r.files.map fun f => f.messages.length).sum := by
  rw [messageCount, List.sum_eq_foldr, List.foldr_map]

namespace Console

/-- The entries of a document for files. -/
def fileEntries (document : Json) : List Json :=
  (document.itemsUnder "reports").flatMap (Json.itemsUnder "files")

/-- The entries of a document for messages. -/
def messageEntries (document : Json) : List Json :=
  (fileEntries document).flatMap (Json.itemsUnder "messages")

/-- A number among the totals of a document. -/
def total? (name : String) (document : Json) : Option Json :=
  (document.get? "summary").bind (Json.get? name)

/-- The totals in a document are what its entries add up to. -/
structure Tallies (document : Json) : Prop where
  files : total? "files" document = some (.nat (fileEntries document).length)
  messages : total? "messages" document = some (.nat (messageEntries document).length)
  errors : total? "errors" document = some (.nat (document.itemsUnder "errors").length)

lemma itemsUnder_reports (reports : List (Pass × Report)) (errors : List String) (t : Summary) :
    (runJson reports errors t).itemsUnder "reports" = reports.map fun x => reportJson x.1 x.2 :=
  Json.itemsUnder_record rfl

lemma itemsUnder_errors (reports : List (Pass × Report)) (errors : List String) (t : Summary) :
    (runJson reports errors t).itemsUnder "errors" = errors.map .text :=
  Json.itemsUnder_record rfl

lemma itemsUnder_files (p : Pass) (r : Report) :
    (reportJson p r).itemsUnder "files" = r.files.map fileJson :=
  Json.itemsUnder_record rfl

lemma itemsUnder_messages (f : FileResult) :
    (fileJson f).itemsUnder "messages" = f.messages.map messageJson :=
  Json.itemsUnder_record rfl

lemma fileEntries_runJson (reports : List (Pass × Report)) (errors : List String) (t : Summary) :
    fileEntries (runJson reports errors t) = reports.flatMap fun x => x.2.files.map fileJson := by
  simp [fileEntries, itemsUnder_reports, List.flatMap_map, itemsUnder_files]

lemma messageEntries_runJson (reports : List (Pass × Report)) (errors : List String)
    (t : Summary) :
    messageEntries (runJson reports errors t) =
      reports.flatMap fun x => x.2.files.flatMap fun f => f.messages.map messageJson := by
  simp [messageEntries, fileEntries_runJson, List.flatMap_assoc, List.flatMap_map,
    itemsUnder_messages]

lemma total_runJson (name : String) (reports : List (Pass × Report)) (errors : List String)
    (t : Summary) : total? name (runJson reports errors t) = (summaryJson t).get? name := by
  simp [total?, runJson, List.lookup]

lemma tallies_runJson (es : List Event) (words : Failure → String) :
    Tallies (runJson (Run.reports es) ((Run.failures es).map words) (Summary.ofEvents es)) where
  files := by
    rw [fileEntries_runJson, total_runJson, List.length_flatMap, Run.ofEvents_eq]
    simp [summaryJson, List.lookup]
  messages := by
    rw [messageEntries_runJson, total_runJson, List.length_flatMap, Run.ofEvents_eq]
    simp [summaryJson, List.lookup, List.length_flatMap, Report.messageCount_eq]
  errors := by
    rw [itemsUnder_errors, total_runJson, Run.ofEvents_eq]
    simp [summaryJson, List.lookup]

end Console

/-! ### Two runs -/

lemma Configuration.resolve_outputs (host : Host) (root plugin output₁ output₂ : Option String) :
    (∃ e, resolve host ⟨root, plugin, output₁⟩ = .error e ∧
      resolve host ⟨root, plugin, output₂⟩ = .error e) ∨
    ∃ (c : Configuration) (name₁ name₂ : String),
      resolve host ⟨root, plugin, output₁⟩ = .ok (c.withOutput name₁) ∧
      resolve host ⟨root, plugin, output₂⟩ = .ok (c.withOutput name₂) := by
  rw [resolve_output host root plugin output₁, resolve_output host root plugin output₂]
  cases resolve host ⟨root, plugin, none⟩ with
  | error e => exact .inl ⟨e, rfl, rfl⟩
  | ok c => exact .inr ⟨c, output₁.getD c.output, output₂.getD c.output, rfl, rfl⟩

namespace Program

lemma run_lint {host : Host} {words : Failure → String} {tools : Runner σ} {args : List String}
    {cmd : Command} {a : CommandLine.Arguments}
    (hread : CommandLine.read args = .ok (.lint cmd a)) (s : σ) :
    run host words tools args s = lint host words tools cmd a s := by
  simp only [run, hread]

section

variable {host : Host} {words : Failure → String} {tools : Runner σ} {cmd : Command}
  {target root plugin output : Option String}

lemma lint_of_unresolved {e : Failure}
    (h : Configuration.resolve host ⟨root, plugin, output⟩ = .error e) (s : σ) :
    lint host words tools cmd ⟨target, root, plugin, output⟩ s =
      (transcript e.exitCode (.err (errorLabel host ++ " " ++ words e)), s) := by
  simp only [lint, CommandLine.Arguments.request, h]

lemma lint_of_resolved {c : Configuration} {name : String}
    (h : Configuration.resolve host ⟨root, plugin, output⟩ = .ok (c.withOutput name)) (s : σ) :
    lint host words tools cmd ⟨target, root, plugin, output⟩ s =
      let r := Run.perform (fun _ => host) c cmd target tools s
      (transcript (r.totals.exitCode c.failOnViolations)
        (runLines host words (c.withOutput name) r.events r.totals), r.memory) := by
  simp only [lint, CommandLine.Arguments.request, h, Run.perform_withOutput]
  rfl

end

lemma textOf_singleton (l : String) : textOf [l] = l ++ "\n" := by
  simp [textOf, String.join]

/-- **The form of the output is presentation only.** -/
theorem output_modes_agree (host : Host) (words : Failure → String) (tools : Runner σ) (s : σ)
    {cmd : Command} {target root plugin output₁ output₂ : Option String} {args₁ args₂ : List String}
    (hread₁ : CommandLine.read args₁ = .ok (.lint cmd ⟨target, root, plugin, output₁⟩))
    (hread₂ : CommandLine.read args₂ = .ok (.lint cmd ⟨target, root, plugin, output₂⟩)) :
    let r₁ := run host words tools.recorded args₁ (s, [])
    let r₂ := run host words tools.recorded args₂ (s, [])
    r₁.2 = r₂.2 ∧ r₁.1.exitCode = r₂.1.exitCode ∧
      ((∃ e, Configuration.resolve host ⟨root, plugin, output₁⟩ = .error e ∧
          Configuration.resolve host ⟨root, plugin, output₂⟩ = .error e ∧
          r₁.1.output = "" ∧ r₂.1.output = "") ∨
        ∃ (c : Configuration) (name₁ name₂ : String),
          Configuration.resolve host ⟨root, plugin, output₁⟩ = .ok (c.withOutput name₁) ∧
          Configuration.resolve host ⟨root, plugin, output₂⟩ = .ok (c.withOutput name₂) ∧
          (name₁ = "json" → name₂ ≠ "json" →
            let r := Run.perform (fun _ => host) c cmd target tools.recorded (s, [])
            let document := Console.runJson (Run.reports r.events)
              ((Run.failures r.events).map words) r.totals
            r₁.1.output = document.render ++ "\n" ∧ Console.Tallies document ∧
            r₂.1.output = textOf ((Run.reports r.events).flatMap fun x =>
              Console.reportLines host.workingPath (colours host name₂) x.2))) := by
  intro r₁ r₂
  have hr₁ : r₁ = _ := run_lint hread₁ _
  have hr₂ : r₂ = _ := run_lint hread₂ _
  clear_value r₁ r₂
  rcases Configuration.resolve_outputs host root plugin output₁ output₂ with
    ⟨e, hc₁, hc₂⟩ | ⟨c, name₁, name₂, hc₁, hc₂⟩
  · rw [lint_of_unresolved hc₁] at hr₁
    rw [lint_of_unresolved hc₂] at hr₂
    rw [hr₁, hr₂]
    exact ⟨rfl, rfl, .inl ⟨e, hc₁, hc₂, rfl, rfl⟩⟩
  · rw [lint_of_resolved hc₁] at hr₁
    rw [lint_of_resolved hc₂] at hr₂
    rw [hr₁, hr₂]
    refine ⟨rfl, rfl, .inr ⟨c, name₁, name₂, hc₁, hc₂, ?_⟩⟩
    rintro rfl hother r document
    refine ⟨?_, ?_, ?_⟩
    · exact textOf_singleton document.render
    · have htotals : r.totals = _ := Run.perform_totals (s, [])
      simp only [document, htotals]
      exact Console.tallies_runJson r.events words
    · have hplain : (c.withOutput name₂).wantsJson = false := decide_eq_false hother
      simp only [transcript, runLines, hplain, Bool.false_eq_true, if_false, plainLines_output]
      rfl

/-- A machine with a script and the rules for it. -/
def scriptSite : Host where
  tree := .directory []
    [.file "a.js".toList [], .directory "src".toList [.file ".eslintrc".toList []]]
  workingDirectory := []
  pluginHome := none
  noColor := false
  programDirectory := .ofString "/"

/-- Every tool finds the same thing in the script. -/
def findingRunner : Runner Unit := fun _ s =>
  (.ok ⟨"[\x7b\"filePath\":\"/a.js\",\"messages\":[\x7b\"message\":\"No\"\x7d]\x7d]", some 1⟩,
    s)

/-- The same run, with the output as a document and as plain lines. -/
theorem output_modes_agree_on_script :
    let words : Failure → String := fun _ => "failed"
    let r₁ := run scriptSite words findingRunner.recorded
      ["jslint", "--target=a.js", "--output=json"] ((), [])
    let r₂ := run scriptSite words findingRunner.recorded
      ["jslint", "--output", "plain", "--target", "a.js"] ((), [])
    r₁.2 = r₂.2 ∧ r₁.1.exitCode = r₂.1.exitCode ∧
      ∃ c : Configuration,
        Configuration.resolve scriptSite ⟨none, none, some "json"⟩ = .ok (c.withOutput "json") ∧
        let r := Run.perform (fun _ => scriptSite) c .jslint (some "a.js") findingRunner.recorded
          ((), [])
        let document := Console.runJson (Run.reports r.events)
          ((Run.failures r.events).map words) r.totals
        r₁.1.output = document.render ++ "\n" ∧ Console.Tallies document ∧
          r₂.1.output = textOf ((Run.reports r.events).flatMap fun x =>
            Console.reportLines scriptSite.workingPath (colours scriptSite "plain") x.2) := by
  intro words r₁ r₂
  have hread₁ : CommandLine.read ["jslint", "--target=a.js", "--output=json"] =
      .ok (.lint .jslint ⟨some "a.js", none, none, some "json"⟩) := by cbv
  have hread₂ : CommandLine.read ["jslint", "--output", "plain", "--target", "a.js"] =
      .ok (.lint .jslint ⟨some "a.js", none, none, some "plain"⟩) := by cbv
  have hjson : (Configuration.resolve scriptSite ⟨none, none, some "json"⟩).map (·.output) =
      .ok "json" := by cbv
  have hplain : (Configuration.resolve scriptSite ⟨none, none, some "plain"⟩).map (·.output) =
      .ok "plain" := by cbv
  obtain ⟨hsame, hexit, ⟨e, he, -⟩ | ⟨c, name₁, name₂, hc₁, hc₂, houtput⟩⟩ :=
    output_modes_agree scriptSite words findingRunner () hread₁ hread₂
  · rw [he] at hjson
    cases hjson
  · rw [hc₁] at hjson
    rw [hc₂] at hplain
    obtain rfl : name₁ = "json" := Except.ok.inj hjson
    obtain rfl : name₂ = "plain" := Except.ok.inj hplain
    exact ⟨hsame, hexit, c, hc₁, houtput rfl (by decide)⟩

end Program

end SiteLint
