import SiteLint.Proofs.ListArguments

/-!
The extensions that a linter is told.

Targets are chosen by the extensions of the set-up, and the linter itself looks into directories by
the extensions that one of its options lists. When there are extensions and none has a comma in it,
both choose the same files, and the dots in front of an extension count for neither.
-/

namespace SiteLint

/-- The options that tell a linter the extensions. -/
inductive ExtensionOption
  /-- ESLint's, with a dot in front of each. -/
  | ext
  /-- PHP_CodeSniffer's, without dots. -/
  | extensions
  deriving DecidableEq, Repr

namespace ExtensionOption

/-- The linter that has the option. -/
def linter (c : Configuration) : ExtensionOption → LinterConfig
  | ext => c.eslint
  | extensions => c.phpcs

/-- The command that has the option. -/
def command (host : Host) (c : Configuration) (targets : List Target) :
    ExtensionOption → Except Failure ToolCommand
  | ext => Eslint.command host c targets
  | extensions => CodeSniffer.command host c targets

/-- What the command says after the option. -/
def value? (cmd : ToolCommand) : ExtensionOption → Option String
  | ext => ToolCommand.valueIn? "--ext" cmd.arguments
  | extensions => ToolCommand.assignedIn? "--extensions" cmd.arguments

/-- An extension as the option has it. -/
def item (e : String) : ExtensionOption → String
  | ext => "." ++ e
  | extensions => e

/-- The command is one for a linter that is set up as `l`, on a machine and for targets for which
there is one. -/
def Runs (o : ExtensionOption) (l : LinterConfig) (cmd : ToolCommand) : Prop :=
  ∃ (host : Host) (c : Configuration) (targets : List Target),
    o.linter c = l ∧ o.command host c targets = .ok cmd

/-- The path has an extension that the list names. -/
def Covers (o : ExtensionOption) (list : String) (p : Path) : Prop :=
  ∃ e : String, p.extension? = some (Text.Utf8.encode e.toList) ∧ o.item e ∈ Text.items list

/-- The command tells extensions, and they are those of the paths that `l` accepts. -/
def Tells (o : ExtensionOption) (cmd : ToolCommand) (l : LinterConfig) : Prop :=
  ∃ list, o.value? cmd = some list ∧ ∀ p, l.accepts p = true ↔ o.Covers list p

end ExtensionOption

/-- The two texts differ in nothing but the number of dots in front. -/
def SameButDots (e e' : String) : Prop :=
  ∃ (m n : Nat) (bare : List Char),
    e.toList = List.replicate m '.' ++ bare ∧ e'.toList = List.replicate n '.' ++ bare

namespace LinterConfig

/-- The set-up `l'` has each extension of `l`, with more, fewer or as many dots in front. -/
def Respelled (l l' : LinterConfig) : Prop :=
  ∃ es, List.Forall₂ SameButDots l.extensions.texts es ∧ l'.extensions = .ofList es

variable {l l' : LinterConfig} {e e' : String}

/-! ### Extensions without dots -/

lemma notMem_bareExtension {c : Char} (h : c ∉ e.toList) : c ∉ (bareExtension e).toList := by
  rw [bareExtension, String.toList_ofList]
  exact fun hc => h (List.dropWhile_subset _ hc)

lemma bareExtension_of_dots {n : Nat} {bare : List Char}
    (h : e.toList = List.replicate n '.' ++ bare) :
    bareExtension e = bareExtension (String.ofList bare) := by
  have hdots : ∀ c ∈ List.replicate n '.', decide (c = '.') = true := by simp
  rw [bareExtension, bareExtension, h, List.dropWhile_append_of_pos hdots, String.toList_ofList]

lemma bareExtension_eq (h : SameButDots e e') : bareExtension e = bareExtension e' := by
  obtain ⟨m, n, bare, he, he'⟩ := h
  rw [bareExtension_of_dots he, bareExtension_of_dots he']

lemma accepts_iff {p : Path} :
    l.accepts p = true ↔
      ∃ e : String, p.extension? = some (Text.Utf8.encode e.toList) ∧ e ∈ l.extensionList := by
  cases h : p.extension? with
  | none => simp [accepts, h]
  | some bytes => simp [accepts, h, eq_comm (a := bytes), and_comm]

lemma mem_extensionList_respelled (h : l.Respelled l') (x : String) :
    x ∈ l'.extensionList ↔ x ∈ l.extensionList := by
  obtain ⟨es, hes, hl'⟩ := h
  have hsame : l.extensions.texts.map bareExtension = es.map bareExtension := by
    rw [← List.forall₂_eq_eq_eq, List.forall₂_map_left_iff, List.forall₂_map_right_iff]
    exact hes.imp fun _ _ => bareExtension_eq
  rw [extensionList, extensionList, hsame, hl']
  simp [TextSet.mem_ofList]

lemma accepts_respelled (h : l.Respelled l') (p : Path) : l'.accepts p = l.accepts p := by
  rw [Bool.eq_iff_iff, accepts_iff, accepts_iff]
  simp only [mem_extensionList_respelled h]

end LinterConfig

namespace ExtensionOption

variable {o : ExtensionOption} {l : LinterConfig} {cmd : ToolCommand}

/-! ### What the options say -/

lemma item_injective (o : ExtensionOption) : Function.Injective o.item := by
  intro e e' h
  cases o with
  | ext => simpa [item] using h
  | extensions => exact h

lemma notMem_item {e : String} (h : ',' ∉ e.toList) : ',' ∉ (o.item e).toList := by
  cases o with
  | ext => simpa [item] using h
  | extensions => exact h

lemma value_of_runs (h : o.Runs l cmd) :
    o.value? cmd = some (String.intercalate "," (l.extensionList.map o.item)) := by
  obtain ⟨host, c, targets, rfl, hcmd⟩ := h
  cases o with
  | ext => exact Eslint.ext_of_command hcmd
  | extensions =>
    have hitem : (extensions.linter c).extensionList.map extensions.item =
        c.phpcs.extensionList := List.map_id' _
    rw [hitem]
    exact CodeSniffer.extensions_of_command hcmd

lemma items_value (hsome : l.extensions.texts ≠ [])
    (hcomma : ∀ e ∈ l.extensions.texts, ',' ∉ e.toList) :
    Text.items (String.intercalate "," (l.extensionList.map o.item)) =
      l.extensionList.map o.item := by
  have hlist : l.extensionList.map o.item ≠ [] := by simpa [LinterConfig.extensionList] using hsome
  refine (Text.items_intercalate_eq_iff hlist).2 fun x hx => ?_
  obtain ⟨bare, hbare, rfl⟩ := List.mem_map.1 hx
  obtain ⟨e, he, rfl⟩ := List.mem_map.1 hbare
  exact notMem_item (LinterConfig.notMem_bareExtension (hcomma e he))

lemma tells_of_runs (hsome : l.extensions.texts ≠ [])
    (hcomma : ∀ e ∈ l.extensions.texts, ',' ∉ e.toList) (h : o.Runs l cmd) : o.Tells cmd l := by
  refine ⟨_, value_of_runs h, fun p => ?_⟩
  rw [Covers, items_value hsome hcomma, LinterConfig.accepts_iff]
  simp only [List.mem_map_of_injective o.item_injective]

end ExtensionOption

namespace LinterConfig

variable {l l' : LinterConfig}

/-! ### What dots leave -/

lemma notMem_of_sameButDots {c : Char} {e e' : String} (hc : c ≠ '.') (h : SameButDots e e')
    (he : c ∉ e.toList) : c ∉ e'.toList := by
  obtain ⟨m, n, bare, hm, hn⟩ := h
  have hdots : c ∉ List.replicate n '.' := fun hmem => hc (List.eq_of_mem_replicate hmem)
  rw [hm, List.mem_append, not_or] at he
  rw [hn, List.mem_append, not_or]
  exact ⟨hdots, he.2⟩

lemma Respelled.nonempty (h : l.Respelled l') (hsome : l.extensions.texts ≠ []) :
    l'.extensions.texts ≠ [] := by
  obtain ⟨es, hes, hl'⟩ := h
  obtain ⟨e, he⟩ := List.exists_mem_of_ne_nil _ hsome
  obtain ⟨e', he', -⟩ := exists_of_forall₂ hes he
  rw [hl']
  exact List.ne_nil_of_mem (TextSet.mem_ofList.2 he')

lemma Respelled.notMem (h : l.Respelled l') (hcomma : ∀ e ∈ l.extensions.texts, ',' ∉ e.toList) :
    ∀ e ∈ l'.extensions.texts, ',' ∉ e.toList := by
  obtain ⟨es, hes, hl'⟩ := h
  intro e' he'
  rw [hl', TextSet.mem_ofList] at he'
  obtain ⟨e, he, hdots⟩ := exists_of_forall₂ hes.flip he'
  exact notMem_of_sameButDots (by decide) hdots (hcomma e he)

/-- **Extensions told.** With extensions in the set-up, and no comma in them, each linter is told
just those by which paths are accepted; and the dots in front of extensions change neither what is
accepted nor what a linter is told. -/
theorem extension_options_agree (l : LinterConfig) (hsome : l.extensions.texts ≠ [])
    (hcomma : ∀ e ∈ l.extensions.texts, ',' ∉ e.toList) :
    (∀ (o : ExtensionOption) (cmd : ToolCommand), o.Runs l cmd → o.Tells cmd l) ∧
    ∀ l', l.Respelled l' → (∀ p, l'.accepts p = l.accepts p) ∧
      ∀ (o : ExtensionOption) (cmd : ToolCommand), o.Runs l' cmd → o.Tells cmd l := by
  refine ⟨fun o cmd h => ExtensionOption.tells_of_runs hsome hcomma h,
    fun l' hl' => ⟨accepts_respelled hl', fun o cmd h => ?_⟩⟩
  obtain ⟨list, hlist, hcovers⟩ :=
    ExtensionOption.tells_of_runs (hl'.nonempty hsome) (hl'.notMem hcomma) h
  refine ⟨list, hlist, fun p => ?_⟩
  rw [← hcovers, accepts_respelled hl']

/-- A machine with one file that serves for rules. -/
def oneFileHost : Host where
  tree := .directory [] [.file "rules".toList []]
  workingDirectory := []
  pluginHome := none
  noColor := false
  programDirectory := .ofString "/"

/-- A set-up with the rules in the one file. -/
def withExtensions (extensions : List String) : LinterConfig where
  configPath := .ofString "/rules"
  ignorePath := none
  targets := []
  extensions := .ofList extensions

/-- Both linters are set up alike. -/
def sharedBy (l : LinterConfig) : Configuration where
  projectRoot := .ofString "/"
  pluginDirectory := .ofString "/"
  settingsPath := none
  output := "human"
  eslint := l
  phpcs := l
  stripAdvertisement := true
  tools := ⟨"eslint", "php", "phpcs"⟩
  unsupportedTarget := .skip
  failOnViolations := true

/-- The command for ESLint. One item is just a dot. -/
def dottedCommand : ToolCommand :=
  ⟨"eslint", ["--config", "/rules", "--env", "browser", "--format", "json", "--ext",
    ".,.js,.inc", "/lib"], some (.ofString "/")⟩

/-- The command for PHP_CodeSniffer. One item is empty. -/
def plainCommand : ToolCommand :=
  ⟨"phpcs", ["--standard=/rules", "--report=json", "--extensions=,js,inc",
    "--ignore=" ++ String.intercalate "," CodeSniffer.generatedPatterns, "/lib"],
    some (.ofString "/")⟩

theorem extension_options_agree_of_mixed_dots :
    ExtensionOption.ext.Tells dottedCommand (withExtensions [".", "..inc", "js"]) ∧
      ExtensionOption.extensions.Tells plainCommand (withExtensions [".", "..inc", "js"]) := by
  have htexts : (withExtensions [".", "..inc", "js"]).extensions.texts = [".", "..inc", "js"] := by
    decide
  have hrespelled :
      (withExtensions [".", "..inc", "js"]).Respelled (withExtensions ["", "inc", ".js"]) := by
    refine ⟨["", "inc", ".js"], ?_, rfl⟩
    rw [htexts]
    exact .cons ⟨1, 0, [], by decide, by decide⟩ (.cons ⟨2, 0, "inc".toList, by decide, by decide⟩
      (.cons ⟨0, 1, "js".toList, by decide, by decide⟩ .nil))
  have hext : ExtensionOption.ext.Runs (withExtensions ["", "inc", ".js"]) dottedCommand :=
    ⟨oneFileHost, sharedBy _, [.directory (.ofString "/lib")], rfl, by cbv⟩
  have hextensions :
      ExtensionOption.extensions.Runs (withExtensions ["", "inc", ".js"]) plainCommand :=
    ⟨oneFileHost, sharedBy _, [.directory (.ofString "/lib")], rfl, by cbv⟩
  obtain ⟨-, hagree⟩ := extension_options_agree (withExtensions [".", "..inc", "js"])
    (by decide) (by decide)
  exact ⟨(hagree _ hrespelled).2 .ext _ hext, (hagree _ hrespelled).2 .extensions _ hextensions⟩

end LinterConfig

end SiteLint
