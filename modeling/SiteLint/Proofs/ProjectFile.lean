import SiteLint.Proofs.DocumentLookup
import SiteLint.Settings.Source

/-!
What the entries of other extensions do to the settings in a project file.

The settings of a site are those of this program's own entry, and nothing that another entry says
gets into them. But every entry has to be readable as settings of this program, so that another
entry can make the whole file unusable.
-/

namespace SiteLint

namespace Settings

/-- A project file: an object with extensions among its members. -/
def projectDocument (before after extensions : Record Json) : Json :=
  .record (before ++ ("extensions", .record extensions) :: after)

/-- The entries of this program. -/
def ownEntries (es : Record Json) : Record Json := es.filter (·.1 = extensionName)

/-- The entries of other extensions. -/
def otherEntries (es : Record Json) : Record Json := es.filter (·.1 ≠ extensionName)

/-- Each entry says nothing about settings, or says it in the shape of this program's settings. -/
def AllReadable (es : Record Json) : Prop := ∀ e ∈ es, (extensionSettings? e.2).isSome = true

/-- The settings in the last of this program's entries. -/
def ownSettings (es : Record Json) : Option Settings :=
  (ownEntries es).getLast?.bind fun e => (extensionSettings? e.2).join

end Settings

/-- A directory has no file of settings, and its project file holds a document. -/
structure Host.HoldsProject (host : Host) (root : Path) (v : Json) : Prop where
  unset : ∀ f ∈ Settings.files, host.isFile (root.join (.ofString f.1)) = false
  there : host.isFile (root.join (.ofString Settings.projectFile)) = true
  holds : ∃ text, host.readText (root.join (.ofString Settings.projectFile)) = .ok text ∧
    Json.read? text.toList = some v

namespace Settings

lemma allReadable_iff {es : Record Json} :
    AllReadable es ↔ AllReadable (ownEntries es) ∧ AllReadable (otherEntries es) := by
  constructor
  · intro h
    exact ⟨fun e he => h e (List.mem_filter.1 he).1, fun e he => h e (List.mem_filter.1 he).1⟩
  · rintro ⟨hown, hother⟩ e he
    by_cases hname : e.1 = extensionName
    · exact hown e (List.mem_filter.2 ⟨he, by simpa using hname⟩)
    · exact hother e (List.mem_filter.2 ⟨he, by simpa using hname⟩)

lemma extensions_of_readable {es : Record Json} (h : AllReadable es) :
    extensions? (.record es) = some (es.map fun e => (e.1, (extensionSettings? e.2).join)) := by
  simp only [extensions?, Json.members_record, Option.bind_eq_bind, Option.bind_some]
  induction es with
  | nil => rfl
  | cons e es ih =>
    have hrest := ih fun e' he' => h e' (List.mem_cons_of_mem _ he')
    obtain ⟨s, hs⟩ := Option.isSome_iff_exists.1 (h e List.mem_cons_self)
    simp [hrest, hs]

lemma getLast_own_readable (es : Record Json) :
    ((es.map fun e => (e.1, (extensionSettings? e.2).join)).filter
      (·.1 = extensionName)).getLast?.bind (·.2) = ownSettings es := by
  simp only [ownSettings, ownEntries, List.filter_map, List.getLast?_map, Option.bind_map,
    Function.comp_def]

lemma extensions_of_not_readable {es : Record Json} (h : ¬ AllReadable es) :
    extensions? (.record es) = Option.none := by
  simp only [extensions?, Json.members_record, Option.bind_eq_bind, Option.bind_some]
  induction es with
  | nil => exact absurd (fun e he => by cases he) h
  | cons e es ih =>
    rw [List.mapM_cons]
    cases he : extensionSettings? e.2 with
    | none => simp
    | some s =>
      have hrest : ¬ AllReadable es := by
        intro hes
        refine h fun e' he' => ?_
        rcases List.mem_cons.1 he' with rfl | he'
        · simp [he]
        · exact hes e' he'
      simp [ih hrest]

lemma readProject_eq {text : String} {before after es : Record Json}
    (hnames : "extensions" ∉ (before ++ after).map (·.1))
    (h : Json.read? text.toList = some (projectDocument before after es)) :
    readProject? text = (extensions? (.record es)).map fun entries =>
      (entries.filter (·.1 = extensionName)).getLast?.bind (·.2) := by
  have hfields : (projectDocument before after es).fields? ["extensions"] =
      some (before ++ ("extensions", .record es) :: after) := Json.fields_record _ _
  simp only [readProject?, h, hfields, Json.withDefault?, Record.field_between hnames,
    Option.bind_eq_bind, Option.bind_some]
  cases extensions? (.record es) <;> rfl

variable {host : Host} {root : Path} {before after es : Record Json}

lemma load_eq_loadProject {v : Json} (h : host.HoldsProject root v) :
    load host root = loadProject host (root.join (.ofString projectFile)) := by
  have hfind : (files.find? fun f => host.isFile (root.join (.ofString f.1))) = Option.none := by
    rw [List.find?_eq_none]
    intro f hf
    simp [h.unset f hf]
  simp only [load, hfind, h.there, if_true]

/-- **Readable entries.** The settings are those of this program's own entry. -/
lemma load_of_readable (hnames : "extensions" ∉ (before ++ after).map (·.1))
    (h : host.HoldsProject root (projectDocument before after es)) (hes : AllReadable es) :
    load host root =
      .ok ((ownSettings es).map (root.join (.ofString projectFile), ·)) := by
  obtain ⟨text, htext, hread⟩ := h.holds
  have hproject : readProject? text = some (ownSettings es) := by
    rw [readProject_eq hnames hread, extensions_of_readable hes, Option.map_some,
      getLast_own_readable]
  rw [load_eq_loadProject h]
  simp [loadProject, readFile, htext, Except.mapError, hproject, bind, Except.bind]

lemma load_of_not_readable (hnames : "extensions" ∉ (before ++ after).map (·.1))
    (h : host.HoldsProject root (projectDocument before after es)) (hes : ¬ AllReadable es) :
    load host root = .error (.settings (root.join (.ofString projectFile)) .mismatched) := by
  obtain ⟨text, htext, hread⟩ := h.holds
  have hproject : readProject? text = Option.none := by
    rw [readProject_eq hnames hread, extensions_of_not_readable hes]
    rfl
  rw [load_eq_loadProject h]
  simp [loadProject, readFile, htext, Except.mapError, hproject, bind, Except.bind]

/-- **Other extensions.** Two project files with the same entry of this program lead to the same
settings, or both to an error, unless that entry is readable and the entries of other extensions are
all readable in one file only. When all entries are readable, the settings are those of the entry of
this program. -/
theorem load_agrees_iff {host₁ host₂ : Host} {root : Path} {before after es₁ es₂ : Record Json}
    (hnames : "extensions" ∉ (before ++ after).map (·.1))
    (h₁ : host₁.HoldsProject root (projectDocument before after es₁))
    (h₂ : host₂.HoldsProject root (projectDocument before after es₂))
    (hown : ownEntries es₁ = ownEntries es₂) :
    (load host₁ root = load host₂ root ↔
      (AllReadable (ownEntries es₁) →
        (AllReadable (otherEntries es₁) ↔ AllReadable (otherEntries es₂)))) ∧
    (AllReadable es₁ → load host₁ root =
      .ok ((ownSettings es₁).map (root.join (.ofString projectFile), ·))) := by
  refine ⟨?_, load_of_readable hnames h₁⟩
  have hload : load host₁ root = load host₂ root ↔ (AllReadable es₁ ↔ AllReadable es₂) := by
    have hsettings : ownSettings es₁ = ownSettings es₂ := by rw [ownSettings, ownSettings, hown]
    by_cases hes₁ : AllReadable es₁ <;> by_cases hes₂ : AllReadable es₂
    · simp [load_of_readable hnames h₁ hes₁, load_of_readable hnames h₂ hes₂, hsettings, hes₁, hes₂]
    · simp [load_of_readable hnames h₁ hes₁, load_of_not_readable hnames h₂ hes₂, hes₁, hes₂]
    · simp [load_of_not_readable hnames h₁ hes₁, load_of_readable hnames h₂ hes₂, hes₁, hes₂]
    · simp [load_of_not_readable hnames h₁ hes₁, load_of_not_readable hnames h₂ hes₂, hes₁, hes₂]
  rw [hload, allReadable_iff, @allReadable_iff es₂, ← hown, and_congr_right_iff]

/-- A machine with a text as the project file at its top, and nothing else. -/
def projectHost (text : List Char) : Host where
  tree := .directory [] [.file projectFile.toList (text.map fun c => c.toNat.toUInt8)]
  workingDirectory := []
  pluginHome := .none
  noColor := false
  programDirectory := .ofString "/"

lemma projectHost_holds {text : List Char} {v : Json}
    (hbytes : Text.Utf8.text? (text.map fun c => c.toNat.toUInt8) = some text)
    (hread : Json.read? text = some v) :
    (projectHost text).HoldsProject (.ofString "/") v where
  unset := by
    have h : (files.all fun f =>
        !(projectHost text).isFile ((Path.ofString "/").join (.ofString f.1))) = true := by cbv
    simpa using h
  there := by cbv
  holds := by
    have hentry : (projectHost text).entry ((Path.ofString "/").join (.ofString projectFile)) true =
        .ok (.file projectFile.toList (text.map fun c => c.toNat.toUInt8)) := by cbv
    refine ⟨String.ofList text, ?_, by rwa [String.toList_ofList]⟩
    simp [Host.readText, hentry, hbytes, bind, Except.bind]

/-- Entries of which this program's own asks for JSON output. -/
def entriesWith (other : Json) : Record Json :=
  [("aquifer-git", other),
    (extensionName, .record [("config", .record [("output", .text "json")])])]

/-- The text of a project file with these entries. -/
def textWith (other : String) : List Char :=
  ("\x7b\"extensions\":\x7b\"aquifer-git\":" ++ other ++
    ",\"aquifer-coder\":\x7b\"config\":\x7b\"output\":\"json\"\x7d\x7d\x7d\x7d").toList

/-- An extension without settings. -/
def plainEntry : Json := .record []

/-- An extension that tells where it comes from. -/
def sourceEntry : Json := .record [("source", .text "git")]

/-- An extension with settings that are none of this program's. -/
def strangerEntry : Json := .record [("config", .record [("output", .nat 1)])]

set_option maxRecDepth 2000 in
lemma plain_holds : (projectHost (textWith "\x7b\x7d")).HoldsProject (.ofString "/")
    (projectDocument [] [] (entriesWith plainEntry)) :=
  projectHost_holds (by cbv) (by cbv)

set_option maxRecDepth 2000 in
lemma source_holds : (projectHost (textWith "\x7b\"source\":\"git\"\x7d")).HoldsProject
    (.ofString "/") (projectDocument [] [] (entriesWith sourceEntry)) :=
  projectHost_holds (by cbv) (by cbv)

set_option maxRecDepth 2000 in
lemma stranger_holds :
    (projectHost (textWith "\x7b\"config\":\x7b\"output\":1\x7d\x7d")).HoldsProject
      (.ofString "/") (projectDocument [] [] (entriesWith strangerEntry)) :=
  projectHost_holds (by cbv) (by cbv)

lemma allReadable_entriesWith {other : Json} :
    AllReadable (entriesWith other) ↔ (extensionSettings? other).isSome = true := by
  have hown : (extensionSettings?
      (.record [("config", .record [("output", .text "json")])])).isSome = true := by cbv
  simp [AllReadable, entriesWith, hown]

theorem load_of_source_or_plain :
    load (projectHost (textWith "\x7b\"source\":\"git\"\x7d")) (.ofString "/") =
      load (projectHost (textWith "\x7b\x7d")) (.ofString "/") := by
  have hsource : AllReadable (entriesWith sourceEntry) := allReadable_entriesWith.2 (by cbv)
  have hplain : AllReadable (entriesWith plainEntry) := allReadable_entriesWith.2 (by cbv)
  refine (load_agrees_iff (by simp) source_holds plain_holds rfl).1.2 fun _ => ?_
  simp [(allReadable_iff.1 hsource).2, (allReadable_iff.1 hplain).2]

/-- The settings of another extension can make the own settings unusable. -/
theorem stranger_spoils_settings :
    ¬ ∀ (host₁ host₂ : Host) (root : Path) (before after es₁ es₂ : Record Json),
      "extensions" ∉ (before ++ after).map (·.1) → (∀ e ∈ es₁ ++ es₂, ∃ ms, e.2 = .obj ms) →
      host₁.HoldsProject root (projectDocument before after es₁) →
      host₂.HoldsProject root (projectDocument before after es₂) →
      ownEntries es₁ = ownEntries es₂ → load host₁ root = load host₂ root := by
  intro h
  have hplain : AllReadable (entriesWith plainEntry) := allReadable_entriesWith.2 (by cbv)
  have hstranger : ¬ AllReadable (entriesWith strangerEntry) := by
    rw [allReadable_entriesWith, Bool.not_eq_true]
    cbv
  have hobjects :
      ∀ e ∈ entriesWith strangerEntry ++ entriesWith plainEntry, ∃ ms, e.2 = .obj ms := by
    simp [entriesWith, strangerEntry, plainEntry, Json.record]
  have hsame := h _ _ _ [] [] _ _ (by simp) hobjects stranger_holds plain_holds rfl
  rw [load_of_not_readable (by simp) stranger_holds hstranger,
    load_of_readable (by simp) plain_holds hplain] at hsame
  cases hsame

end Settings

end SiteLint
