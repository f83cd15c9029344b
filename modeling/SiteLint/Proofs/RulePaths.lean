import SiteLint.CodeSniffer.Pass
import SiteLint.Eslint.Pass
import SiteLint.Launch
import SiteLint.Proofs.PathLookup
import SiteLint.Proofs.PathSpelling
import SiteLint.Proofs.Results

/-!
Whether a linter reads the rules that were looked for.

A command names its rules by paths. Each was looked for from the working directory, but the linter
sees it from the root of the project, where it is started. Paths out of the settings are absolute,
and so are those of a plugin in an absolute directory. What a plugin in a relative directory brings
along is looked for in one place and read in another.
-/

namespace SiteLint

/-- The options by which a command names rules. -/
inductive RuleOption
  /-- ESLint's rule-set. -/
  | config
  /-- The list of files for ESLint to pass over. -/
  | ignore
  /-- The coding standard. -/
  | standard
  deriving DecidableEq, Repr

namespace RuleOption

/-- The command that the option belongs to. -/
def command (host : Host) (c : Configuration) (targets : List Target) :
    RuleOption → Except Failure ToolCommand
  | config => Eslint.command host c targets
  | ignore => Eslint.command host c targets
  | standard => CodeSniffer.command host c targets

/-- The command passes the option with the text `a`. -/
def Passes (targets : List Target) (cmd : ToolCommand) (a : String) : RuleOption → Prop
  | config => ∃ rest, cmd.arguments = "--config" :: a :: rest
  | ignore => ∃ before,
      cmd.arguments = before ++ ["--ignore-path", a] ++ targets.map fun t => t.path.toString
  | standard => ∃ rest, cmd.arguments = ("--standard=" ++ a) :: rest

/-- What is looked for before the option is passed. -/
def isThere (host : Host) (p : Path) : RuleOption → Bool
  | config => host.isFile p
  | ignore => host.isFile p
  | standard => host.pathExists p

/-- The path that a set-up has for the option. -/
def path? (c : Configuration) : RuleOption → Option Path
  | config => some c.eslint.configPath
  | ignore => c.eslint.ignorePath
  | standard => some c.phpcs.configPath

/-- What settings say about the option. -/
def setting? (s : Settings) : RuleOption → Option String
  | config => s.eslintOverrides.config
  | ignore => s.eslintOverrides.ignore
  | standard => s.phpcsOverrides.config

/-- What the plugin brings along. -/
def builtIn (plugin : Path) : RuleOption → Path
  | config => (plugin.join (.ofString "src")).join (.ofString ".eslintrc")
  | ignore => (plugin.join (.ofString "src")).join (.ofString ".eslintignore")
  | standard => plugin.join (.ofString "vendor/drupalmodule/coder/coder_sniffer/Drupal")

variable {host : Host} {c : Configuration} {targets : List Target} {cmd : ToolCommand} {p : Path}

lemma exists_locate {o : RuleOption} (h : o.isThere host p = true) :
    ∃ l, host.locate p true = .ok l := by
  cases hl : host.locate p true with
  | ok l => exact ⟨l, rfl⟩
  | error e =>
    have he : host.entry p true = .error e := by
      simp [Host.entry, hl, bind, Except.bind]
    cases o <;> simp [isThere, Host.isFile, Host.pathExists, he, Except.isOk, Except.toBool] at h

/-! ### What the commands pass -/

lemma eslint_command (h : Eslint.command host c targets = .ok cmd) :
    host.isFile c.eslint.configPath = true ∧ cmd.directory = some c.projectRoot ∧
      cmd.arguments =
        ["--config", c.eslint.configPath.toString, "--env", "browser", "--format", "json"] ++
          ["--ext", Eslint.extensionArgument c.eslint] ++ Eslint.ignoreArguments host c.eslint ++
          targets.map fun t => t.path.toString := by
  unfold Eslint.command at h
  split at h
  · cases h
  · rename_i hfile
    cases h
    exact ⟨by simpa using hfile, rfl, by simp⟩

lemma standards_command (h : CodeSniffer.command host c targets = .ok cmd) :
    host.pathExists c.phpcs.configPath = true ∧ cmd.directory = some c.projectRoot ∧
      ∃ rest, cmd.arguments = ("--standard=" ++ c.phpcs.configPath.toString) :: rest := by
  unfold CodeSniffer.command at h
  split at h
  · cases h
  · rename_i hfile
    cases h
    exact ⟨by simpa using hfile, rfl, _, rfl⟩

lemma ignoreArguments_eq (host : Host) (c : LinterConfig) :
    Eslint.ignoreArguments host c = [] ∨
      ∃ q, c.ignorePath = some q ∧ host.isFile q = true ∧
        Eslint.ignoreArguments host c = ["--ignore-path", q.toString] := by
  cases hq : c.ignorePath with
  | none => exact .inl (by simp [Eslint.ignoreArguments, hq])
  | some q =>
    by_cases hfile : host.isFile q = true
    · exact .inr ⟨q, rfl, hfile, by simp [Eslint.ignoreArguments, hq, hfile]⟩
    · exact .inl (by simp [Eslint.ignoreArguments, hq, hfile])

lemma command_directory {o : RuleOption} (h : o.command host c targets = .ok cmd) :
    cmd.directory = some c.projectRoot := by
  cases o with
  | config => exact (eslint_command h).2.1
  | ignore => exact (eslint_command h).2.1
  | standard => exact (standards_command h).2.1

lemma of_passes {o : RuleOption} {a : String} (h : o.command host c targets = .ok cmd)
    (ha : o.Passes targets cmd a) :
    ∃ p, a = p.toString ∧ o.path? c = some p ∧ o.isThere host p = true := by
  cases o with
  | config =>
    obtain ⟨hfile, -, hargs⟩ := eslint_command h
    obtain ⟨rest, hrest⟩ := ha
    rw [hargs] at hrest
    obtain rfl : c.eslint.configPath.toString = a := by simp_all
    exact ⟨_, rfl, rfl, hfile⟩
  | ignore =>
    obtain ⟨-, -, hargs⟩ := eslint_command h
    obtain ⟨before, hbefore⟩ := ha
    have hfront := List.append_cancel_right (hargs.symm.trans hbefore)
    rcases ignoreArguments_eq host c.eslint with hnone | ⟨q, hq, hfile, hsome⟩
    · -- the two arguments before the targets are those of another option
      rw [hnone, List.append_nil] at hfront
      have hlast := List.append_inj_right' hfront rfl
      simp at hlast
    · rw [hsome] at hfront
      have hlast := List.append_inj_right' hfront rfl
      obtain rfl : q.toString = a := by simpa using hlast
      exact ⟨q, rfl, hq, hfile⟩
  | standard =>
    obtain ⟨hfile, -, rest, hargs⟩ := standards_command h
    obtain ⟨rest', hrest⟩ := ha
    rw [hargs] at hrest
    have hhead := congrArg String.toList (List.cons.inj hrest).1
    simp only [String.toList_append, List.append_cancel_left_eq, String.toList_inj] at hhead
    exact ⟨_, hhead.symm, rfl, hfile⟩

/-! ### Where the paths come from -/

lemma path_ofSettings {root plugin : Path} {source : Option Path} {s : Settings}
    {output : Option String} {o : RuleOption}
    (h : o.path? (.ofSettings root plugin source s output) = some p) :
    p = ((o.setting? s).map fun t => root.join (.ofString t)).getD (o.builtIn plugin) := by
  cases o with
  | config =>
    obtain rfl : (Configuration.ofSettings root plugin source s output).eslint.configPath = p := by
      simpa [path?] using h
    rfl
  | ignore =>
    simp only [path?, setting?, builtIn, Configuration.ofSettings, LinterConfig.merge] at h ⊢
    cases hs : s.eslintOverrides.ignore with
    | none => simpa [hs, LinterConfig.eslintDefault, eq_comm] using h
    | some t =>
      rw [hs] at h
      by_cases ht : t = ""
      · simp [ht] at h
      · simpa [ht, eq_comm] using h
  | standard =>
    obtain rfl : (Configuration.ofSettings root plugin source s output).phpcs.configPath = p := by
      simpa [path?] using h
    rfl

lemma isAbsolute_builtIn (o : RuleOption) (plugin : Path) :
    (o.builtIn plugin).isAbsolute = plugin.isAbsolute := by
  have hsrc : (Path.ofString "src").isAbsolute = false := rfl
  have hrc : (Path.ofString ".eslintrc").isAbsolute = false := rfl
  have hignore : (Path.ofString ".eslintignore").isAbsolute = false := rfl
  have hstandard :
      (Path.ofString "vendor/drupalmodule/coder/coder_sniffer/Drupal").isAbsolute = false := rfl
  cases o <;> simp [builtIn, hsrc, hrc, hignore, hstandard]

end RuleOption

/-- The settings that a set-up is made from. -/
def Settings.inForce (host : Host) (root : Path) : Settings :=
  match load host root with
  | .ok (some (_, s)) => s
  | _ => .none

lemma Configuration.resolve_ok {host : Host} {asked : Request} {c : Configuration}
    (h : resolve host asked = .ok c) :
    c.projectRoot.isAbsolute = true ∧
      ∃ source, c = .ofSettings c.projectRoot (Project.pluginDirectory host asked.pluginDirectory)
        source (Settings.inForce host c.projectRoot) asked.output := by
  simp only [resolve, bind_ok_iff, mapError_ok_iff] at h
  obtain ⟨start, hstart, found, hload, h⟩ := h
  obtain ⟨l, -, rfl⟩ := map_ok_iff.1 hstart
  have hroot : (Project.rootFrom host (Path.ofLocation l)).isAbsolute = true :=
    Project.isAbsolute_rootFrom (Path.isAbsolute_ofLocation l)
  rcases found with _ | ⟨source, s⟩
  · cases h
    exact ⟨hroot, none, by simp [ofSettings, Settings.inForce, hload]⟩
  · cases h
    exact ⟨hroot, some source, by simp [ofSettings, Settings.inForce, hload]⟩

lemma Launch.locate_of_runDirectory {host : Host} {q : Path} {dir : List Name}
    (h : runDirectory host (some q) = .ok dir) : host.locate q true = .ok dir := by
  obtain ⟨l, hl, h⟩ := bind_ok_iff.1 h
  split at h
  · cases h
    exact hl
  · cases h
  · cases h

/-! ### Paths that are no texts -/

namespace Path

/-- The names that lead somewhere: what is neither empty nor a dot. -/
def leading (p : Path) : List Name := p.pieces.filter fun n => n ≠ [] ∧ n ≠ [dot]

lemma filter_steps (p : Path) : p.steps.filter (· ≠ [dot]) = p.leading := by
  have hends : p.steps.filter (· ≠ [dot]) = (p.pieces.filter (· ≠ [])).filter (· ≠ [dot]) := by
    unfold steps
    dsimp only
    split
    · rw [List.filter_append]
      simp
    · rfl
  rw [hends, List.filter_filter, leading]
  exact List.filter_congr fun n _ => by simp [Bool.and_comm]

lemma up_mem_steps {p : Path} : [dot, dot] ∈ p.steps ↔ [dot, dot] ∈ p.pieces := by
  have hsteps : [dot, dot] ∈ p.steps ↔ [dot, dot] ∈ p.leading := by
    rw [← filter_steps, List.mem_filter]
    simp
  rw [hsteps, leading, List.mem_filter]
  simp

lemma leading_reread (p : Path) : p.reread.leading = p.leading.map Name.reread := by
  have hkept : (fun n : Name => decide (n ≠ [] ∧ n ≠ [dot])) ∘ Name.reread =
      fun n => decide (n ≠ [] ∧ n ≠ [dot]) := by
    funext n
    have hempty : n.reread = [] ↔ n = [] := Name.reread_eq_ascii [] (by simp)
    have hdot : n.reread = [dot] ↔ n = [dot] := Name.reread_eq_ascii ['.'] (by simp)
    simp [hempty, hdot]
  rw [leading, pieces_reread, List.filter_map, hkept, leading]

lemma up_mem_reread {p : Path} : [dot, dot] ∈ p.reread.steps ↔ [dot, dot] ∈ p.steps := by
  have hup (n : Name) : n.reread = [dot, dot] ↔ n = [dot, dot] :=
    Name.reread_eq_ascii ['.', '.'] (by simp)
  rw [up_mem_steps, up_mem_steps, pieces_reread, List.mem_map]
  simp [hup]

lemma isText_of_leading {p : Path} (h : p.leading.map Name.reread = p.leading) : p.IsText := by
  have hleading : ∀ n ∈ p.leading, n.reread = n :=
    List.map_inj_left.1 (h.trans (List.map_id _).symm)
  refine isText_iff_pieces.2 fun n hn => ?_
  by_cases hnamed : n ≠ [] ∧ n ≠ [dot]
  · exact Name.reread_eq_iff.1 (hleading n (List.mem_filter.2 ⟨hn, decide_eq_true hnamed⟩))
  · rw [not_and_or, not_not, not_not] at hnamed
    rcases hnamed with rfl | rfl
    · exact ⟨[], rfl⟩
    · exact ⟨['.'], rfl⟩

end Path

/-- Without links and steps up, the text of a path leads to the same names only if it has them. -/
lemma Host.isText_of_sameFile {host : Host} {p : Path} {dir : List Name}
    (hfree : host.tree.LinkFree) (hup : [dot, dot] ∉ p.steps) (h : host.SameFile dir p) :
    p.IsText := by
  obtain ⟨l, hhere, hdir⟩ := h
  have hfollow := (locate_eq_follow hhere host true).symm.trans hhere
  have hfollow' := (locate_eq_follow hdir (host.seenFrom dir) true).symm.trans hdir
  have hplace := follow_linkFree hfree hup hfollow
  have hplace' := follow_linkFree hfree (mt Path.up_mem_reread.1 hup) hfollow'
  rw [Path.filter_steps] at hplace
  rw [← Path.reread, Path.filter_steps, Path.leading_reread] at hplace'
  refine Path.isText_of_leading (List.append_inj_right' (hplace'.symm.trans hplace) ?_)
  rw [List.length_map]

/-- **Rules that are looked for and read.** What a command passes is the text of a path that comes
from the settings, seen from the root of the project, or else from the plugin, and something was
found there. If that path is a text, the linter, which runs in `dir`, sees the same file just when
the settings gave the path, or the plugin is in an absolute directory, or the relative path leads to
one place from both directories. Without links and steps up it sees the same file only if the path is
a text, and a relative path leads there only if both directories are one. -/
theorem rule_path_agrees_iff {host : Host} {asked : Configuration.Request} {c : Configuration}
    {targets : List Target} {o : RuleOption} {cmd : ToolCommand} {dir : List Name} {a : String}
    (hc : Configuration.resolve host asked = .ok c) (hcmd : o.command host c targets = .ok cmd)
    (hdir : Launch.runDirectory host cmd.directory = .ok dir) (ha : o.Passes targets cmd a) :
    let said := o.setting? (Settings.inForce host c.projectRoot)
    let plugin := Project.pluginDirectory host asked.pluginDirectory
    let p := (said.map fun t => c.projectRoot.join (.ofString t)).getD (o.builtIn plugin)
    a = p.toString ∧ (Path.ofString a = p ↔ p.IsText) ∧
    o.isThere host p = true ∧ host.locate c.projectRoot true = .ok dir ∧
    (p.IsText →
      (host.SameFile dir p ↔
        said.isSome = true ∨ plugin.isAbsolute = true ∨
          ∃ l, Host.follow host.tree true Host.linkLimit dir p.steps = .ok l ∧
            Host.follow host.tree true Host.linkLimit host.workingDirectory p.steps = .ok l)) ∧
    (host.tree.LinkFree → [dot, dot] ∉ p.steps →
      (host.SameFile dir p ↔ p.IsText ∧
        (said.isSome = true ∨ plugin.isAbsolute = true ∨ dir = host.workingDirectory))) := by
  intro said plugin p
  obtain ⟨hroot, source, hof⟩ := Configuration.resolve_ok hc
  obtain ⟨q, rfl, hpath, hthere⟩ := RuleOption.of_passes hcmd ha
  rw [hof] at hpath
  obtain rfl : q = p := RuleOption.path_ofSettings hpath
  obtain ⟨l, hl⟩ := RuleOption.exists_locate hthere
  have habsolute : p.isAbsolute = true ↔ said.isSome = true ∨ plugin.isAbsolute = true := by
    simp only [p]
    cases hsaid : o.setting? (Settings.inForce host c.projectRoot) with
    | none => simp [said, hsaid, plugin, RuleOption.isAbsolute_builtIn]
    | some t => simp [said, hsaid, hroot]
  have hstart : host.locate c.projectRoot true = .ok dir := by
    rw [RuleOption.command_directory hcmd] at hdir
    exact Launch.locate_of_runDirectory hdir
  refine ⟨rfl, Path.reread_eq_iff, hthere, hstart, fun htext => ?_, fun hfree hup => ?_⟩
  · rw [Host.sameFile_iff hl htext, habsolute, or_assoc]
  · have hsame (htext : p.IsText) : host.SameFile dir p ↔
        said.isSome = true ∨ plugin.isAbsolute = true ∨ dir = host.workingDirectory := by
      rw [Host.sameFile_iff_of_linkFree hl htext dir hfree hup, habsolute, or_assoc]
    constructor
    · intro h
      have htext := Host.isText_of_sameFile hfree hup h
      exact ⟨htext, (hsame htext).1 h⟩
    · exact fun h => (hsame h.1).2 h.2

/-- A directory with a plugin in it. -/
def pluginTree : Entry :=
  .directory "plugin".toList [.directory "src".toList [.file ".eslintrc".toList []]]

/-- A site with a plugin at its root and another one in a directory below, seen from there. -/
def twoPluginHost : Host where
  tree := .directory [] [.directory "site".toList [.directory ".git".toList [], pluginTree,
    .directory "sub".toList [pluginTree]]]
  workingDirectory := ["site".toList, "sub".toList]
  pluginHome := none
  noColor := false
  programDirectory := .ofString "/"

/-- The plugin is asked for by a relative path. -/
def relativeRequest : Configuration.Request := ⟨none, some "plugin", none⟩

/-- The set-up that the request leads to. -/
def relativeConfiguration : Configuration :=
  .ofSettings (.ofString "/site") (.ofString "plugin") none .none none

/-- The command for the working directory. -/
def relativeCommand : ToolCommand :=
  ⟨"eslint", ["--config", "plugin/src/.eslintrc", "--env", "browser", "--format", "json", "--ext",
    ".js", "/site/sub"], some (.ofString "/site")⟩

lemma resolve_relativeRequest :
    Configuration.resolve twoPluginHost relativeRequest = .ok relativeConfiguration := by
  cbv

lemma eslint_relativeCommand :
    RuleOption.config.command twoPluginHost relativeConfiguration
      [.directory (.ofString "/site/sub")] = .ok relativeCommand := by
  cbv

lemma runDirectory_relativeCommand :
    Launch.runDirectory twoPluginHost relativeCommand.directory = .ok ["site".toList] := by
  cbv

lemma passes_relativeCommand :
    RuleOption.config.Passes [.directory (.ofString "/site/sub")] relativeCommand
      "plugin/src/.eslintrc" :=
  ⟨_, rfl⟩

lemma pluginTree_linkFree : pluginTree.LinkFree :=
  .directory _ _ (by simpa using .directory _ _ (by simpa using .file _ _))

lemma twoPluginHost_linkFree : twoPluginHost.tree.LinkFree := by
  have hsub : (Entry.directory "sub".toList [pluginTree]).LinkFree :=
    .directory _ _ (by simpa using pluginTree_linkFree)
  have hgit : (Entry.directory ".git".toList []).LinkFree := .directory _ _ (by simp)
  have hsite : (Entry.directory "site".toList [.directory ".git".toList [], pluginTree,
      .directory "sub".toList [pluginTree]]).LinkFree :=
    .directory _ _ (by simpa using ⟨hgit, pluginTree_linkFree, hsub⟩)
  exact .directory _ _ (by simpa using hsite)

theorem rule_path_of_relative_plugin :
    twoPluginHost.isFile (.ofString "plugin/src/.eslintrc") = true ∧
      ¬ twoPluginHost.SameFile ["site".toList] (.ofString "plugin/src/.eslintrc") := by
  obtain ⟨-, -, hthere, -, -, hiff⟩ := rule_path_agrees_iff resolve_relativeRequest
    eslint_relativeCommand runDirectory_relativeCommand passes_relativeCommand
  have hsaid : RuleOption.config.setting?
      (Settings.inForce twoPluginHost relativeConfiguration.projectRoot) = none := by
    cbv
  have hbuiltIn : RuleOption.config.builtIn
      (Project.pluginDirectory twoPluginHost relativeRequest.pluginDirectory) =
        .ofString "plugin/src/.eslintrc" := by
    cbv
  simp only [hsaid, hbuiltIn, Option.map_none, Option.getD_none] at hthere hiff
  refine ⟨hthere, fun h => ?_⟩
  rcases ((hiff twoPluginHost_linkFree (by decide)).1 h).2 with h | h | h
  · cases h
  · exact absurd h (by decide)
  · exact absurd h (by decide)

/-- A rule-set can be looked for in one place and read in another. -/
theorem relative_plugin_misread :
    ¬ ∀ (host : Host) (asked : Configuration.Request) (c : Configuration) (targets : List Target)
        (o : RuleOption) (cmd : ToolCommand) (dir : List Name) (p : Path),
      Configuration.resolve host asked = .ok c → o.command host c targets = .ok cmd →
        Launch.runDirectory host cmd.directory = .ok dir → o.path? c = some p →
        o.Passes targets cmd p.toString → host.SameFile dir p := by
  intro h
  have hpath : RuleOption.config.path? relativeConfiguration =
      some (.ofString "plugin/src/.eslintrc") := by
    cbv
  have htext := Path.toString_ofString "plugin/src/.eslintrc"
  obtain ⟨l, hhere, hdir⟩ := h _ _ _ _ _ _ _ _ resolve_relativeRequest eslint_relativeCommand
    runDirectory_relativeCommand hpath (htext.symm ▸ passes_relativeCommand)
  rw [htext] at hdir
  have hl : twoPluginHost.locate (.ofString "plugin/src/.eslintrc") true =
      .ok ["site".toList, "sub".toList, "plugin".toList, "src".toList, ".eslintrc".toList] := by
    cbv
  have hl' : (twoPluginHost.seenFrom ["site".toList]).locate
      (.ofString "plugin/src/.eslintrc") true =
        .ok ["site".toList, "plugin".toList, "src".toList, ".eslintrc".toList] := by
    cbv
  have hsame := (Except.ok.inj (hhere.symm.trans hl)).symm.trans
    (Except.ok.inj (hdir.symm.trans hl'))
  exact absurd hsame (by decide)

end SiteLint
