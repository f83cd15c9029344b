import SiteLint.Configuration
import SiteLint.Proofs.OverrideLayers

/-!
Settings with older keys.

Three keys have an older name outside their section. What is given under the older names is one
layer of overrides beneath the section, so that a key of the section counts before its older name.
Keys that are moved into their sections leave every set-up as it was.
-/

namespace SiteLint

/-- A key with an older name outside its section. -/
inductive OlderKey
  /-- `eslint.config`, before that `eslintrc`. -/
  | eslintConfig
  /-- `eslint.ignore`, before that `eslintIgnore`. -/
  | eslintIgnore
  /-- `phpcs.config`, before that `phpcsStandard`. -/
  | phpcsConfig
  deriving DecidableEq, Repr

namespace OlderKey

def all : List OlderKey := [eslintConfig, eslintIgnore, phpcsConfig]

/-- What is given under the older name. -/
def older? (s : Settings) : OlderKey → Option String
  | eslintConfig => s.eslintrc
  | eslintIgnore => s.eslintIgnore
  | phpcsConfig => s.phpcsStandard

/-- What is given in the section. -/
def sectioned? (s : Settings) : OlderKey → Option String
  | eslintConfig => s.eslint.bind (·.config)
  | eslintIgnore => s.eslint.bind (·.ignore)
  | phpcsConfig => s.phpcs.bind (·.linter.config)

/-- The settings with `text` under the older name. -/
def setOlder (s : Settings) (text : Option String) : OlderKey → Settings
  | eslintConfig => { s with eslintrc := text }
  | eslintIgnore => { s with eslintIgnore := text }
  | phpcsConfig => { s with phpcsStandard := text }

/-- The settings with `text` in the section, which is made if there is none. -/
def setSectioned (s : Settings) (text : String) : OlderKey → Settings
  | eslintConfig => { s with eslint := some { s.eslint.getD .none with config := some text } }
  | eslintIgnore => { s with eslint := some { s.eslint.getD .none with ignore := some text } }
  | phpcsConfig =>
    let standards := s.phpcs.getD ⟨.none, none⟩
    { s with phpcs := some { standards with
        linter := { standards.linter with config := some text } } }

/-- The settings with the key moved into its section, unless the section gives it already. -/
def move (s : Settings) (k : OlderKey) : Settings :=
  match k.older? s, k.sectioned? s with
  | some text, none => k.setOlder (k.setSectioned s text) none
  | _, _ => k.setOlder s none

/-- What is given for the key, under either name. -/
def given? (s : Settings) (k : OlderKey) : Option String := (k.sectioned? s).or (k.older? s)

end OlderKey

namespace Settings

/-- What is said under the older names about ESLint. -/
def olderEslint (s : Settings) : Overrides := ⟨s.eslintrc, s.eslintIgnore, .none, .none⟩

/-- What is said under the older names about the coding standards check. -/
def olderPhpcs (s : Settings) : Overrides := ⟨s.phpcsStandard, .none, .none, .none⟩

/-- The settings with every older key moved into its section. -/
def migrated (s : Settings) : Settings := OlderKey.all.foldl OlderKey.move s

/-- What is said besides the keys with older names; a section that is not there says nothing. -/
def rest (s : Settings) : Settings :=
  let eslint := s.eslint.getD .none
  let standards := s.phpcs.getD ⟨.none, .none⟩
  { s with
    eslint := some { eslint with config := .none, ignore := .none }
    phpcs := some { standards with linter := { standards.linter with config := .none } }
    eslintrc := .none
    eslintIgnore := .none
    phpcsStandard := .none }

end Settings

namespace OlderKey

variable {s s' : Settings} {k other : OlderKey}

/-! ### What a move does to the settings -/

lemma older?_setOlder (text : Option String) :
    other.older? (k.setOlder s text) = if other = k then text else other.older? s := by
  cases k <;> cases other <;> rfl

lemma older?_setSectioned (text : String) :
    other.older? (k.setSectioned s text) = other.older? s := by
  cases k <;> cases other <;> rfl

lemma sectioned?_setOlder (text : Option String) :
    other.sectioned? (k.setOlder s text) = other.sectioned? s := by
  cases k <;> cases other <;> rfl

lemma sectioned?_setSectioned (text : String) :
    other.sectioned? (k.setSectioned s text) =
      if other = k then some text else other.sectioned? s := by
  obtain ⟨output, eslint, phpcs, tools, lint, eslintrc, eslintIgnore, phpcsStandard⟩ := s
  cases k <;> cases other <;> cases eslint <;> cases phpcs <;> rfl

lemma older?_move :
    other.older? (k.move s) = if other = k then none else other.older? s := by
  unfold move
  split
  · rw [older?_setOlder, older?_setSectioned]
  · rw [older?_setOlder]

lemma sectioned?_move :
    other.sectioned? (k.move s) =
      if other = k then (k.sectioned? s).or (k.older? s) else other.sectioned? s := by
  unfold move
  split
  · rename_i text holder hsectioned
    rw [sectioned?_setOlder, sectioned?_setSectioned, hsectioned, holder, Option.none_or]
  · rename_i hnot
    rw [sectioned?_setOlder]
    split
    · rename_i heq
      subst heq
      cases holder : other.older? s with
      | none => rw [Option.or_none]
      | some text =>
        obtain ⟨said, hsaid⟩ := Option.ne_none_iff_exists'.1 (hnot text holder)
        rw [hsaid, Option.some_or]
    · rfl

lemma older?_foldl_move (ks : List OlderKey) :
    k.older? (ks.foldl move s) = if k ∈ ks then none else k.older? s := by
  induction ks generalizing s with
  | nil => simp
  | cons k' ks ih =>
    rw [List.foldl_cons, ih, older?_move]
    by_cases hk : k = k' <;> simp [hk]

lemma sectioned?_foldl_move (ks : List OlderKey) :
    k.sectioned? (ks.foldl move s) =
      if k ∈ ks then (k.sectioned? s).or (k.older? s) else k.sectioned? s := by
  induction ks generalizing s with
  | nil => simp
  | cons k' ks ih =>
    rw [List.foldl_cons, ih, sectioned?_move, older?_move]
    by_cases hk : k = k' <;> simp [hk]

lemma rest_setOlder (text : Option String) : (k.setOlder s text).rest = s.rest := by
  cases k <;> rfl

lemma rest_setSectioned (text : String) : (k.setSectioned s text).rest = s.rest := by
  cases k <;> rfl

lemma rest_move : (k.move s).rest = s.rest := by
  unfold move
  split
  · rw [rest_setOlder, rest_setSectioned]
  · rw [rest_setOlder]

lemma rest_foldl_move (ks : List OlderKey) : (ks.foldl move s).rest = s.rest := by
  induction ks generalizing s with
  | nil => rfl
  | cons k ks ih => rw [List.foldl_cons, ih, rest_move]

lemma given?_foldl_move (ks : List OlderKey) : k.given? (ks.foldl move s) = k.given? s := by
  rw [given?, older?_foldl_move, sectioned?_foldl_move]
  split
  · rw [Option.or_none, given?]
  · rfl

lemma given?_setOlder (h : (k.sectioned? s).isSome = true) (text : Option String) :
    other.given? (k.setOlder s text) = other.given? s := by
  rw [given?, sectioned?_setOlder, older?_setOlder]
  split
  · rename_i heq
    subst heq
    rw [given?, Option.or_of_isSome h, Option.or_of_isSome h]
  · rfl

end OlderKey

/-! ### What a set-up takes from the settings -/

namespace Settings

variable {s s' : Settings}

lemma eslintOverrides_eq (s : Settings) :
    s.eslintOverrides =
      { s.rest.eslint.getD .none with
        config := OlderKey.eslintConfig.given? s
        ignore := OlderKey.eslintIgnore.given? s } := by
  rw [eslintOverrides, OlderKey.given?, OlderKey.given?]
  cases h : s.eslint <;> simp [rest, h, OlderKey.sectioned?, OlderKey.older?, Overrides.none]

lemma phpcsOverrides_eq (s : Settings) :
    s.phpcsOverrides =
      { (s.rest.phpcs.getD ⟨.none, .none⟩).linter with
        config := OlderKey.phpcsConfig.given? s } := by
  rw [phpcsOverrides, OlderKey.given?]
  cases h : s.phpcs <;> simp [rest, h, OlderKey.sectioned?, OlderKey.older?, Overrides.none]

lemma strip_eq (s : Settings) :
    s.phpcs.bind (·.stripAdvertisement) = s.rest.phpcs.bind (·.stripAdvertisement) := by
  cases h : s.phpcs <;> simp [rest, h]

lemma eslintOverrides_layers (s : Settings) :
    s.eslintOverrides = s.olderEslint.followedBy (s.eslint.getD .none) := by
  simp [eslintOverrides, olderEslint, Overrides.followedBy]

lemma phpcsOverrides_layers (s : Settings) :
    s.phpcsOverrides = s.olderPhpcs.followedBy ((s.phpcs.map (·.linter)).getD .none) := by
  simp [phpcsOverrides, olderPhpcs, Overrides.followedBy]

end Settings

lemma Configuration.ofSettings_congr {s s' : Settings} (hrest : s.rest = s'.rest)
    (hgiven : ∀ k : OlderKey, k.given? s = k.given? s') (root plugin : Path)
    (source : Option Path) (output : Option String) :
    ofSettings root plugin source s output = ofSettings root plugin source s' output := by
  have heslint : s.eslintOverrides = s'.eslintOverrides := by
    rw [Settings.eslintOverrides_eq, Settings.eslintOverrides_eq s', hrest, hgiven, hgiven]
  have hphpcs : s.phpcsOverrides = s'.phpcsOverrides := by
    rw [Settings.phpcsOverrides_eq, Settings.phpcsOverrides_eq s', hrest, hgiven]
  have hstrip : s.phpcs.bind (·.stripAdvertisement) = s'.phpcs.bind (·.stripAdvertisement) := by
    rw [Settings.strip_eq, Settings.strip_eq s', hrest]
  have houtput : s.rest.output = s'.rest.output := by rw [hrest]
  have htools : s.rest.tools = s'.rest.tools := by rw [hrest]
  have hlint : s.rest.lint = s'.rest.lint := by rw [hrest]
  simp only [Settings.rest] at houtput htools hlint
  simp only [ofSettings, heslint, hphpcs, hstrip, houtput, htools, hlint]

/-- **Older keys.** Moving every older key into its section takes the older names away, gives each
key in its section what either name gave, leaves the rest, and no set-up is changed by it. What the
older names say is a layer beneath the section: a key of the section hides its older name, also
when it asks for no ignore file. -/
theorem migrated_same_setup (root plugin : Path) (source : Option Path) (s : Settings)
    (output : Option String) :
    let made (s : Settings) := Configuration.ofSettings root plugin source s output
    made s.migrated = made s ∧
    (∀ k : OlderKey, k.older? s.migrated = none ∧
      k.sectioned? s.migrated = (k.sectioned? s).or (k.older? s)) ∧
    s.migrated.rest = s.rest ∧
    (made s).eslint = ((LinterConfig.eslintDefault plugin).merge s.olderEslint root).merge
      (s.eslint.getD .none) root ∧
    (made s).phpcs = ((LinterConfig.phpDefault plugin).merge s.olderPhpcs root).merge
      ((s.phpcs.map (·.linter)).getD .none) root ∧
    (∀ (k : OlderKey) (text : Option String), (k.sectioned? s).isSome = true →
      made (k.setOlder s text) = made s) ∧
    (OlderKey.eslintIgnore.sectioned? s = some "" → (made s).eslint.ignorePath = none) ∧
    (s.phpcs = none → (made s.migrated).stripAdvertisement = true) := by
  intro made
  have hall (k : OlderKey) : k ∈ OlderKey.all := by cases k <;> decide
  have hsame : made s.migrated = made s :=
    Configuration.ofSettings_congr (OlderKey.rest_foldl_move _)
      (fun _ => OlderKey.given?_foldl_move _) root plugin source output
  refine ⟨hsame, fun k => ⟨?_, ?_⟩, OlderKey.rest_foldl_move _, ?_, ?_, fun k text h => ?_,
    fun h => ?_, fun h => ?_⟩
  · rw [Settings.migrated, OlderKey.older?_foldl_move, if_pos (hall k)]
  · rw [Settings.migrated, OlderKey.sectioned?_foldl_move, if_pos (hall k)]
  · rw [LinterConfig.merge_merge, ← Settings.eslintOverrides_layers]
    rfl
  · rw [LinterConfig.merge_merge, ← Settings.phpcsOverrides_layers]
    rfl
  · exact Configuration.ofSettings_congr (OlderKey.rest_setOlder text)
      (fun _ => OlderKey.given?_setOlder h text) root plugin source output
  · have hignore : s.eslintOverrides.ignore = some "" := by
      have hgiven : s.eslintOverrides.ignore = OlderKey.eslintIgnore.given? s := by
        rw [Settings.eslintOverrides_eq]
      rw [hgiven, OlderKey.given?, h, Option.some_or]
    simp [made, Configuration.ofSettings, LinterConfig.merge, hignore]
  · rw [hsame]
    simp [made, Configuration.ofSettings, h]

/-- Every older name is in use; the section on ESLint asks for no ignore file, and there is none on
the coding standards. -/
def mixedSettings : Settings where
  output := none
  eslint := some { Overrides.none with ignore := some "" }
  phpcs := none
  tools := none
  lint := none
  eslintrc := some "lint/.eslintrc"
  eslintIgnore := some "lint/.eslintignore"
  phpcsStandard := some "/opt/standards/Drupal"

theorem migrated_same_setup_of_mixed :
    let made (s : Settings) :=
      Configuration.ofSettings (.ofString "/site") (.ofString "/opt/coder") none s none
    OlderKey.eslintIgnore.sectioned? mixedSettings = some "" ∧ mixedSettings.phpcs = none ∧
    mixedSettings.migrated =
      { Settings.none with
        eslint := some ⟨some "lint/.eslintrc", some "", none, none⟩
        phpcs := some ⟨⟨some "/opt/standards/Drupal", none, none, none⟩, none⟩ } ∧
    made mixedSettings.migrated = made mixedSettings ∧
    made (OlderKey.eslintIgnore.setOlder mixedSettings none) = made mixedSettings ∧
    (made mixedSettings).eslint.ignorePath = none ∧
    (made mixedSettings.migrated).stripAdvertisement = true := by
  obtain ⟨hsame, -, -, -, -, hhidden, hignore, hstrip⟩ := migrated_same_setup (.ofString "/site")
    (.ofString "/opt/coder") none mixedSettings none
  exact ⟨rfl, rfl, rfl, hsame, hhidden .eslintIgnore none rfl, hignore rfl, hstrip rfl⟩

end SiteLint
