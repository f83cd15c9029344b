import SiteLint.Proofs.ProjectFile
import SiteLint.Proofs.Results
import SiteLint.Proofs.TextBytes
import SiteLint.Program

/-!
Where the settings of a site come from.

Four files can hold settings. The first of them that is a regular file decides alone: what is in it
is the settings, an error or nothing, and nothing behind it is looked at, whatever comes of it.
-/

namespace SiteLint

/-- A regular file with these bytes is there, links followed. -/
def Host.Holds (host : Host) (p : Path) (bytes : List UInt8) : Prop :=
  ∃ name, host.entry p true = .ok (.file name bytes)

lemma Host.isFile_iff_holds {host : Host} {p : Path} :
    host.isFile p = true ↔ ∃ bytes, host.Holds p bytes := by
  simp only [Host.isFile, Host.Holds]
  cases host.entry p true with
  | error e => simp
  | ok e => cases e <;> simp [Entry.isFile]

lemma Host.readText_ok_iff {host : Host} {p : Path} {text : String} :
    host.readText p = .ok text ↔ host.Holds p (Text.Utf8.stored text) := by
  simp only [Host.readText, Host.Holds]
  cases host.entry p true with
  | error e => simp [bind, Except.bind]
  | ok e =>
    cases e with
    | directory n es => simp [bind, Except.bind]
    | link n target => simp [bind, Except.bind]
    | file n bytes =>
      have hstored : (∃ name, (.ok (.file n bytes) : Except IoError Entry) =
          .ok (.file name (Text.Utf8.stored text))) ↔ Text.Utf8.text? bytes = some text.toList := by
        rw [Text.Utf8.text_eq_some_iff]
        simp
      rw [hstored]
      cases htext : Text.Utf8.text? bytes with
      | none => simp [htext, bind, Except.bind]
      | some cs =>
        have hcs : String.ofList cs = text ↔ cs = text.toList :=
          ⟨fun h => by rw [← h, String.toList_ofList], fun h => by rw [h, String.ofList_toList]⟩
        simpa [htext, bind, Except.bind] using hcs

namespace Settings

/-- The files that can hold settings, the first to look for first. -/
def sources : List String := files.map (·.1) ++ [projectFile]

/-- The first source that is a regular file, with the bytes in it. -/
inductive FirstSource (host : Host) (root : Path) : Option (String × List UInt8) → Prop
  | absent (h : ∀ name ∈ sources, ∀ bytes, ¬ host.Holds (root.join (.ofString name)) bytes) :
    FirstSource host root Option.none
  | found {before after : List String} {name : String} {bytes : List UInt8}
    (hsources : sources = before ++ name :: after)
    (hbefore : ∀ other ∈ before, ∀ bytes, ¬ host.Holds (root.join (.ofString other)) bytes)
    (holds : host.Holds (root.join (.ofString name)) bytes) :
    FirstSource host root (some (name, bytes))

/-- The section with settings of an extension: its `config`, unless that is missing or null. -/
def config? (extension : Json) : Option Json := do
  (← (← extension.fields? ["config"]).lookup "config") |> Json.present?

/-- The section of this program in a project file, in the last entry of its name. -/
def ownConfig? (document : Json) : Option Json := do
  let extensions ← (← document.fields? ["extensions"]).lookup "extensions"
  let own ← (ownEntries (← extensions.members?)).getLast?
  config? own.2

/-- A section of a project file as settings. -/
def sectionSettings? (config : Json) : Option Settings :=
  (jsonView (Json.depthLimit - 5)).settings? config

/-- What becomes of the settings, by the first source and the bytes in it. -/
inductive Comes (root : Path) :
    Option (String × List UInt8) → Except Failure (Option (Path × Settings)) → Prop
  | nothing : Comes root Option.none (.ok Option.none)
  | garbled {name : String} {bytes : List UInt8} (h : ∀ text, bytes ≠ Text.Utf8.stored text) :
    Comes root (some (name, bytes)) (.error (.io .invalidUtf8))
  | broken {name text : String} {format : Format} (hname : (name, format) ∈ files)
    (h : read? format text = Option.none) :
    Comes root (some (name, Text.Utf8.stored text))
      (.error (.settings (root.join (.ofString name)) .mismatched))
  | settings {name text : String} {format : Format} {s : Settings} (hname : (name, format) ∈ files)
    (h : read? format text = some s) :
    Comes root (some (name, Text.Utf8.stored text)) (.ok (some (root.join (.ofString name), s)))
  | brokenProject {text : String} (h : readProject? text = Option.none) :
    Comes root (some (projectFile, Text.Utf8.stored text))
      (.error (.settings (root.join (.ofString projectFile)) .mismatched))
  | configured {text : String} {document config : Json} {s : Settings}
    (h : readProject? text ≠ Option.none) (hdocument : Json.read? text.toList = some document)
    (hconfig : ownConfig? document = some config)
    (hs : sectionSettings? config = some s) :
    Comes root (some (projectFile, Text.Utf8.stored text))
      (.ok (some (root.join (.ofString projectFile), s)))
  | unconfigured {text : String} {document : Json}
    (h : readProject? text ≠ Option.none) (hdocument : Json.read? text.toList = some document)
    (hconfig : ownConfig? document = Option.none) :
    Comes root (some (projectFile, Text.Utf8.stored text)) (.ok Option.none)

/-! ### The section in a project file -/

lemma of_extensionSettings {v : Json} {s : Option Settings} (h : extensionSettings? v = some s) :
    (config? v).bind sectionSettings? = s ∧ (config? v = Option.none ↔ s = Option.none) := by
  obtain ⟨ms, hms, h⟩ := Option.bind_eq_some_iff.1 h
  rcases Json.of_withDefault h with ⟨hlookup, rfl⟩ | ⟨config, hlookup, h⟩
  · have hconfig : config? v = Option.none := by simp [config?, hms, hlookup]
    simp [hconfig]
  · have hconfig : config? v = config.present? := by simp [config?, hms, hlookup]
    rw [Json.optional_eq] at h
    cases hpresent : config.present? with
    | none =>
      rw [hpresent] at h
      cases h
      simp [hconfig, hpresent]
    | some own =>
      rw [hpresent] at h
      obtain ⟨x, hx, rfl⟩ := Option.map_eq_some_iff.1 h
      have hsettings : sectionSettings? own = some x := hx
      simp [hconfig, hpresent, hsettings]

lemma of_readProject {text : String} {s : Option Settings} (h : readProject? text = some s) :
    ∃ document, Json.read? text.toList = some document ∧
      (ownConfig? document).bind sectionSettings? = s ∧
      (ownConfig? document = Option.none ↔ s = Option.none) := by
  simp only [readProject?, Option.bind_eq_bind, Option.bind_eq_some_iff] at h
  obtain ⟨document, hdocument, ms, hms, entries, hentries, h⟩ := h
  cases h
  refine ⟨document, hdocument, ?_⟩
  rcases Json.of_withDefault hentries with ⟨hlookup, rfl⟩ | ⟨extensions, hlookup, hentries⟩
  · simp [ownConfig?, hms, hlookup]
  · obtain ⟨es, hes, -⟩ := Option.bind_eq_some_iff.1 hentries
    obtain rfl := Json.eq_record_of_members hes
    have hreadable : AllReadable es := by
      by_contra hnot
      rw [extensions_of_not_readable hnot] at hentries
      cases hentries
    rw [extensions_of_readable hreadable, Option.some.injEq] at hentries
    rw [← hentries, getLast_own_readable, ownSettings]
    have hown : ownConfig? document = (ownEntries es).getLast?.bind fun e => config? e.2 := by
      simp [ownConfig?, hms, hlookup, hes]
    rw [hown]
    cases hlast : (ownEntries es).getLast? with
    | none => simp
    | some e =>
      have he : e ∈ es := (List.mem_filter.1 (List.mem_of_getLast? hlast)).1
      obtain ⟨s, hs⟩ := Option.isSome_iff_exists.1 (hreadable e he)
      simpa [hs] using of_extensionSettings hs

/-! ### The first source -/

variable {host : Host} {root : Path} {name : String} {bytes : List UInt8}

/-- The source of a name is there. -/
def isThere (host : Host) (root : Path) (name : String) : Bool :=
  host.isFile (root.join (.ofString name))

lemma isThere_eq_false_iff :
    isThere host root name = false ↔ ∀ bytes, ¬ host.Holds (root.join (.ofString name)) bytes := by
  rw [isThere, ← Bool.not_eq_true, Host.isFile_iff_holds, not_exists]

lemma exists_firstSource (host : Host) (root : Path) : ∃ source, FirstSource host root source := by
  cases hfind : sources.find? (isThere host root) with
  | none =>
    have habsent := List.find?_eq_none.1 hfind
    exact ⟨_, .absent fun name hname =>
      isThere_eq_false_iff.1 (Bool.eq_false_of_not_eq_true (habsent name hname))⟩
  | some name =>
    obtain ⟨hthere, before, after, hsources, hbefore⟩ := List.find?_eq_some_iff_append.1 hfind
    obtain ⟨bytes, hbytes⟩ := Host.isFile_iff_holds.1 hthere
    refine ⟨_, .found hsources (fun other hother => ?_) hbytes⟩
    exact isThere_eq_false_iff.1 (by simpa using hbefore other hother)

lemma FirstSource.find {source : Option (String × List UInt8)} (h : FirstSource host root source) :
    sources.find? (isThere host root) = source.map (·.1) := by
  cases h with
  | absent h =>
    refine List.find?_eq_none.2 fun name hname => ?_
    simp [isThere_eq_false_iff.2 (h name hname)]
  | found hsources hbefore holds =>
    refine List.find?_eq_some_iff_append.2 ⟨Host.isFile_iff_holds.2 ⟨_, holds⟩, _, _, hsources, ?_⟩
    intro other hother
    simp [isThere_eq_false_iff.2 (hbefore other hother)]

lemma load_cases (host : Host) (root : Path) :
    (∃ name format, (name, format) ∈ files ∧ sources.find? (isThere host root) = some name ∧
      load host root = loadFile host (root.join (.ofString name)) format) ∨
    (sources.find? (isThere host root) = some projectFile ∧
      load host root = loadProject host (root.join (.ofString projectFile))) ∨
    (sources.find? (isThere host root) = Option.none ∧ load host root = .ok Option.none) := by
  have hfind : sources.find? (isThere host root) =
      ((files.find? fun f => isThere host root f.1).map (·.1)).or
        ([projectFile].find? (isThere host root)) := by
    rw [sources, List.find?_append, List.find?_map]
    rfl
  simp only [isThere] at hfind ⊢
  rw [hfind, load]
  cases hfile : files.find? fun f => host.isFile (root.join (.ofString f.1)) with
  | some f => exact .inl ⟨f.1, f.2, List.mem_of_find?_eq_some hfile, rfl, rfl⟩
  | none =>
    cases hproject : host.isFile (root.join (.ofString projectFile)) with
    | true => exact .inr (.inl ⟨by simp [isThere, hproject], by simp [hproject]⟩)
    | false => exact .inr (.inr ⟨by simp [isThere, hproject], by simp [hproject]⟩)

lemma load_of_absent (h : FirstSource host root Option.none) :
    load host root = .ok Option.none := by
  have hfind := h.find
  rcases load_cases host root with ⟨name, format, -, hname, -⟩ | ⟨hname, -⟩ | ⟨-, hload⟩
  · rw [hfind] at hname
    cases hname
  · rw [hfind] at hname
    cases hname
  · exact hload

lemma load_of_file {format : Format} (h : FirstSource host root (some (name, bytes)))
    (hformat : (name, format) ∈ files) :
    load host root = loadFile host (root.join (.ofString name)) format := by
  have hone : ∀ f ∈ files, ∀ g ∈ files, f.1 = g.1 → f.2 = g.2 := by decide
  have hother : ∀ f ∈ files, f.1 ≠ projectFile := by decide
  have hfind := h.find
  rcases load_cases host root with
    ⟨name', format', hformat', hname, hload⟩ | ⟨hname, -⟩ | ⟨hname, -⟩
  · obtain rfl : name = name' := by simpa [hfind] using hname
    have hsame : format' = format := hone _ hformat' _ hformat rfl
    rw [hload, hsame]
  · exact absurd (by simpa [hfind] using hname) (hother _ hformat)
  · rw [hfind] at hname
    cases hname

lemma load_of_project (h : FirstSource host root (some (projectFile, bytes))) :
    load host root = loadProject host (root.join (.ofString projectFile)) := by
  have hother : ∀ f ∈ files, f.1 ≠ projectFile := by decide
  have hfind := h.find
  rcases load_cases host root with ⟨name, format, hformat, hname, -⟩ | ⟨-, hload⟩ | ⟨hname, -⟩
  · exact absurd (by simpa [hfind] using hname.symm) (hother _ hformat)
  · exact hload
  · rw [hfind] at hname
    cases hname

lemma FirstSource.cases_name (h : FirstSource host root (some (name, bytes))) :
    (∃ format, (name, format) ∈ files) ∨ name = projectFile := by
  cases h with
  | found hsources =>
    have hname : name ∈ sources := by simp [hsources]
    simpa [sources] using hname

lemma FirstSource.holds (h : FirstSource host root (some (name, bytes))) :
    host.Holds (root.join (.ofString name)) bytes := by
  cases h with
  | found _ _ holds => exact holds

lemma readFile_stored {p : Path} {text : String} (h : host.Holds p (Text.Utf8.stored text)) :
    readFile host p = .ok text :=
  mapError_ok_iff.2 (Host.readText_ok_iff.2 h)

lemma readFile_garbled {p : Path} (h : host.Holds p bytes)
    (hbytes : ∀ text, bytes ≠ Text.Utf8.stored text) :
    readFile host p = .error (.io .invalidUtf8) := by
  obtain ⟨name, hentry⟩ := h
  have htext : Text.Utf8.text? bytes = Option.none := by
    refine Option.eq_none_iff_forall_ne_some.2 fun cs hcs => hbytes (String.ofList cs) ?_
    rwa [← Text.Utf8.text_eq_some_iff, String.toList_ofList]
  simp [readFile, Host.readText, hentry, htext, bind, Except.bind, Except.mapError]

lemma loadFile_eq {p : Path} {format : Format} {text : String}
    (h : host.Holds p (Text.Utf8.stored text)) :
    loadFile host p format =
      match read? format text with
      | some s => .ok (some (p, s))
      | Option.none => .error (.settings p .mismatched) := by
  rw [loadFile, readFile_stored h]
  rfl

lemma loadProject_eq {p : Path} {text : String} (h : host.Holds p (Text.Utf8.stored text)) :
    loadProject host p =
      match readProject? text with
      | some s => .ok (s.map (p, ·))
      | Option.none => .error (.settings p .mismatched) := by
  rw [loadProject, readFile_stored h]
  rfl

variable {source : Option (String × List UInt8)} {r : Except Failure (Option (Path × Settings))}

lemma load_of_comes (h : FirstSource host root source) (hr : Comes root source r) :
    load host root = r := by
  cases hr with
  | nothing => exact load_of_absent h
  | garbled hbytes =>
    have hread := readFile_garbled h.holds hbytes
    rcases h.cases_name with ⟨format, hformat⟩ | rfl
    · rw [load_of_file h hformat, loadFile, hread]
      rfl
    · rw [load_of_project h, loadProject, hread]
      rfl
  | broken hformat hread => rw [load_of_file h hformat, loadFile_eq h.holds, hread]
  | settings hformat hread => rw [load_of_file h hformat, loadFile_eq h.holds, hread]
  | brokenProject hread => rw [load_of_project h, loadProject_eq h.holds, hread]
  | configured hread hdocument hconfig hs =>
    obtain ⟨found, hfound⟩ := Option.ne_none_iff_exists'.1 hread
    obtain ⟨document', hdocument', hsettings, -⟩ := of_readProject hfound
    obtain rfl := Option.some.inj (hdocument.symm.trans hdocument')
    rw [hconfig, Option.bind_some, hs] at hsettings
    rw [load_of_project h, loadProject_eq h.holds, hfound, ← hsettings]
    rfl
  | unconfigured hread hdocument hconfig =>
    obtain ⟨found, hfound⟩ := Option.ne_none_iff_exists'.1 hread
    obtain ⟨document', hdocument', hsettings, -⟩ := of_readProject hfound
    obtain rfl := Option.some.inj (hdocument.symm.trans hdocument')
    rw [hconfig, Option.bind_none] at hsettings
    rw [load_of_project h, loadProject_eq h.holds, hfound, ← hsettings]
    rfl

lemma exists_comes (h : FirstSource host root source) : ∃ r, Comes root source r := by
  rcases source with _ | ⟨name, bytes⟩
  · exact ⟨_, .nothing⟩
  by_cases hbytes : ∀ text, bytes ≠ Text.Utf8.stored text
  · exact ⟨_, .garbled hbytes⟩
  obtain ⟨text, rfl⟩ : ∃ text, bytes = Text.Utf8.stored text := by simpa using hbytes
  rcases h.cases_name with ⟨format, hformat⟩ | rfl
  · cases hread : read? format text with
    | none => exact ⟨_, .broken hformat hread⟩
    | some s => exact ⟨_, .settings hformat hread⟩
  · cases hread : readProject? text with
    | none => exact ⟨_, .brokenProject hread⟩
    | some found =>
      obtain ⟨document, hdocument, hsettings, hnone⟩ := of_readProject hread
      have hsome : readProject? text ≠ Option.none := by simp [hread]
      cases hconfig : ownConfig? document with
      | none => exact ⟨_, .unconfigured hsome hdocument hconfig⟩
      | some config =>
        rw [hconfig, Option.bind_some] at hsettings
        obtain ⟨s, rfl⟩ : ∃ s, found = some s := by
          refine Option.ne_none_iff_exists'.1 fun hfound => ?_
          simp [hconfig, hfound] at hnone
        exact ⟨_, .configured hsome hdocument hconfig hsettings⟩

lemma comes_load (h : FirstSource host root source) : Comes root source (load host root) := by
  obtain ⟨r, hr⟩ := exists_comes h
  rwa [load_of_comes h hr]

/-! ### The set-up made from it -/

variable {asked : Configuration.Request} {start : Path}

lemma resolve_of_load
    (hstart : host.canonical (.ofString (asked.projectRoot.getD ".")) = .ok start) :
    Configuration.resolve host asked =
      (load host (Project.rootFrom host start)).map fun found =>
        .ofSettings (Project.rootFrom host start)
          (Project.pluginDirectory host asked.pluginDirectory) (found.map (·.1))
          ((found.map (·.2)).getD .none) asked.output := by
  simp only [Configuration.resolve, hstart, Except.mapError, bind, Except.bind]
  rcases load host (Project.rootFrom host start) with e | _ | ⟨p, s⟩ <;> rfl

/-- **One source.** What is loaded is what becomes of the first source that is there, and of the
bytes in it. It is the same in any other state of the files with that source and those bytes. The
set-up of a run fails as loading does, before any tool is called, or names the file that settings
were loaded from. -/
theorem load_from_one_source (host : Host) (root : Path) :
    (∀ r, load host root = r ↔ ∃ source, FirstSource host root source ∧ Comes root source r) ∧
    (∀ (other : Host) (source : Option (String × List UInt8)), FirstSource host root source →
      FirstSource other root source → load other root = load host root) ∧
    ∀ (asked : Configuration.Request) (start : Path),
      host.canonical (.ofString (asked.projectRoot.getD ".")) = .ok start →
      Project.rootFrom host start = root →
      (∀ e, load host root = .error e → Configuration.resolve host asked = .error e ∧
        ∀ {σ : Type} (words : Failure → String) (tools : Runner σ) (cmd : Command)
          (args : CommandLine.Arguments) (s : σ), args.request = asked →
          (Program.lint host words tools.recorded cmd args (s, [])).2 = (s, [])) ∧
      ∀ found, load host root = .ok found → ∃ c, Configuration.resolve host asked = .ok c ∧
        c.projectRoot = root ∧ c.settingsPath = found.map (·.1) := by
  refine ⟨fun r => ⟨?_, ?_⟩, fun other source h hother => ?_, fun asked start hstart hroot => ?_⟩
  · rintro rfl
    obtain ⟨source, h⟩ := exists_firstSource host root
    exact ⟨source, h, comes_load h⟩
  · rintro ⟨source, h, hr⟩
    exact load_of_comes h hr
  · exact load_of_comes hother (comes_load h)
  · have hresolve := resolve_of_load hstart
    rw [hroot] at hresolve
    refine ⟨fun e he => ?_, fun found hfound => ?_⟩
    · rw [he] at hresolve
      refine ⟨hresolve, fun words tools cmd args s hargs => ?_⟩
      simp only [Program.lint, hargs, hresolve, Except.map]
    · rw [hfound] at hresolve
      exact ⟨_, hresolve, rfl, rfl⟩

/-- A machine whose first file of settings is a directory, and whose second one leads to a byte that
no text has. -/
def garbledHost (behind : List Entry) : Host where
  tree := .directory [] ([.directory "aquifer-coder.toml".toList [],
    .link "aquifer-coder.yaml".toList (.ofString "saved"), .file "saved".toList [0xFF]] ++ behind)
  workingDirectory := []
  pluginHome := .none
  noColor := false
  programDirectory := .ofString "/"

/-- A project file that asks for JSON output. -/
def projectEntry : Entry :=
  .file projectFile.toList ((textWith "\x7b\x7d").map fun c => c.toNat.toUInt8)

lemma garbled_first (behind : List Entry) :
    FirstSource (garbledHost behind) (.ofString "/") (some ("aquifer-coder.yaml", [0xFF])) := by
  have hdirectory : isThere (garbledHost behind) (.ofString "/") "aquifer-coder.toml" = false := by
    cbv
  have hsources : sources =
      ["aquifer-coder.toml"] ++ "aquifer-coder.yaml" :: ["aquifer-coder.yml", projectFile] := rfl
  refine .found hsources ?_ ⟨"saved".toList, by cbv⟩
  simpa using isThere_eq_false_iff.1 hdirectory

/-- The bytes are an error, with or without a project file behind them. -/
theorem load_of_garbled_link :
    load (garbledHost [projectEntry]) (.ofString "/") = .error (.io .invalidUtf8) ∧
    load (garbledHost []) (.ofString "/") = load (garbledHost [projectEntry]) (.ofString "/") ∧
    Configuration.resolve (garbledHost [projectEntry]) ⟨some "/", .none, .none⟩ =
      .error (.io .invalidUtf8) := by
  obtain ⟨hload, hother, hresolve⟩ :=
    load_from_one_source (garbledHost [projectEntry]) (.ofString "/")
  have hgarbled :
      load (garbledHost [projectEntry]) (.ofString "/") = .error (.io .invalidUtf8) := by
    refine (hload _).2 ⟨_, garbled_first _, .garbled fun text htext => ?_⟩
    have hnone : Text.Utf8.text? [0xFF] = Option.none := by cbv
    rw [Text.Utf8.text_eq_some_iff.2 htext] at hnone
    cases hnone
  have hstart : (garbledHost [projectEntry]).canonical (.ofString "/") = .ok (.ofString "/") := by
    cbv
  have hroot : Project.rootFrom (garbledHost [projectEntry]) (.ofString "/") = .ofString "/" := by
    cbv
  exact ⟨hgarbled, hother _ _ (garbled_first _) (garbled_first _),
    ((hresolve ⟨some "/", .none, .none⟩ _ hstart hroot).1 _ hgarbled).1⟩

end Settings

end SiteLint
