import SiteLint.Proofs.PathSpelling
import SiteLint.Proofs.SettingsSource

/-!
The root of a project, and starting below it.

A search upwards visits every directory on the way to the top, from the start on, so the marked
directory it stops at is the deepest one there is. All that a run is set up from lies in the root,
so it makes no difference where below it the run was started.
-/

namespace SiteLint

/-! ### The directories above a location -/

namespace Path

variable {ns : List Name} {n : Name}

lemma dropIdleEnd_concat {ps : List (List UInt8)} (hn : n.IsProper) :
    dropIdleEnd (ps ++ [n]) = ps ++ [n] := by
  simp [dropIdleEnd, hn.nonempty, hn.notHere]

lemma dropIdleEnd_proper (hns : ∀ n ∈ ns, n.IsProper) : dropIdleEnd ns = ns := by
  rcases List.eq_nil_or_concat' ns with rfl | ⟨above, n, rfl⟩
  · rfl
  · exact dropIdleEnd_concat (hns n (by simp))

lemma pieces_ofLocation (hne : ns ≠ []) (hns : ∀ n ∈ ns, n.IsProper) :
    (ofLocation ns).pieces = [] :: ns := by
  rw [pieces, ofLocation, Text.splitAt, if_pos rfl, Text.splitAt_glue hne fun n hn => (hns n hn).noSlash]

lemma parent_ofLocation (hns : ∀ m ∈ ns ++ [n], m.IsProper) :
    (ofLocation (ns ++ [n])).parent? = some (ofLocation ns) := by
  have hn : n.IsProper := hns n (by simp)
  have habove : ∀ m ∈ ns, m.IsProper := fun m hm => hns m (by simp [hm])
  simp only [parent?, pieces_ofLocation (by simp) hns, isAbsolute_ofLocation, if_true,
    dropIdleEnd_concat hn, List.dropLast_concat, dropIdleEnd_proper habove]
  simp [ofLocation]

end Path

/-! ### Marked directories -/

namespace Project

/-- In the directory at a location, an entry with the name of a marker can be reached, links
followed. -/
def IsMarkedAt (host : Host) (location : List Name) : Prop :=
  ∃ name ∈ ["aquifer-coder.toml", "aquifer-coder.yaml", "aquifer-coder.yml", "aquifer.json",
      ".git"],
    ∃ e, host.entry (.ofLocation (location ++ [(name.toList : Name)])) true = .ok e

/-- The deepest marked directory at or above a location. -/
structure Closest (host : Host) (location root : List Name) : Prop where
  above : root <+: location
  marked : IsMarkedAt host root
  deepest : ∀ dir, dir <+: location → IsMarkedAt host dir → dir <+: root

variable {host : Host} {location root : List Name}

lemma Closest.unique {other : List Name} (h : Closest host location root)
    (hother : Closest host location other) : root = other :=
  (hother.deepest root h.above h.marked).eq_of_length_le
    (h.deepest other hother.above hother.marked).length_le

lemma isMarked_iff (hproper : ∀ n ∈ location, n.IsProper) :
    isMarked host (.ofLocation location) = true ↔ IsMarkedAt host location := by
  have hmarkers : markers = ["aquifer-coder.toml", "aquifer-coder.yaml", "aquifer-coder.yml",
      "aquifer.json", ".git"] := rfl
  have hflat : ∀ name ∈ markers, slash ∉ Text.Utf8.encode name.toList := by decide
  rw [isMarked, IsMarkedAt, List.any_eq_true, ← hmarkers]
  refine exists_congr fun name => and_congr_right fun hname => ?_
  have hjoin : (Path.ofLocation location).join (.ofString name) =
      .ofLocation (location ++ [(name.toList : Name)]) :=
    Path.Spells.plain.child (fun n hn => ⟨(hproper n hn).nonempty, (hproper n hn).noSlash⟩)
      (hflat name hname)
  rw [hjoin, Host.pathExists]
  cases host.entry (.ofLocation (location ++ [(name.toList : Name)])) true <;>
    simp [Except.isOk, Except.toBool]

lemma closest_self (h : IsMarkedAt host location) : Closest host location location :=
  ⟨List.prefix_rfl, h, fun _ hdir _ => hdir⟩

lemma Closest.concat {n : Name} (h : Closest host location root)
    (hnot : ¬ IsMarkedAt host (location ++ [n])) : Closest host (location ++ [n]) root := by
  refine ⟨h.above.trans (List.prefix_append _ _), h.marked, fun dir hdir hmarked => ?_⟩
  rcases List.prefix_concat_iff.1 hdir with rfl | hdir
  · exact absurd hmarked hnot
  · exact h.deepest dir hdir hmarked

/-- What a search upwards finds: the closest marked directory, or nothing if there is none. -/
inductive Finds (host : Host) (location : List Name) : Option Path → Prop
  | closest {root : List Name} (h : Closest host location root) :
    Finds host location (some (.ofLocation root))
  | nothing (h : ∀ dir, dir <+: location → ¬ IsMarkedAt host dir) : Finds host location none

lemma Finds.concat {found : Option Path} {n : Name} (h : Finds host location found)
    (hnot : ¬ IsMarkedAt host (location ++ [n])) : Finds host (location ++ [n]) found := by
  cases h with
  | closest h => exact .closest (h.concat hnot)
  | nothing h =>
    refine .nothing fun dir hdir => ?_
    rcases List.prefix_concat_iff.1 hdir with rfl | hdir
    · exact hnot
    · exact h dir hdir

lemma finds_cons {rest : List Path} (hproper : ∀ n ∈ location, n.IsProper)
    (h : ¬ IsMarkedAt host location → Finds host location (rest.find? (isMarked host))) :
    Finds host location ((.ofLocation location :: rest).find? (isMarked host)) := by
  cases hmarked : isMarked host (.ofLocation location) with
  | true =>
    rw [List.find?_cons_of_pos hmarked]
    exact .closest (closest_self ((isMarked_iff hproper).1 hmarked))
  | false =>
    rw [List.find?_cons_of_neg (by simp [hmarked])]
    exact h fun h => by simp [(isMarked_iff hproper).2 h] at hmarked

lemma finds_ancestorsWithin (hproper : ∀ n ∈ location, n.IsProper) {steps : Nat}
    (hsteps : location.length ≤ steps) :
    Finds host location
      (((Path.ofLocation location).ancestorsWithin steps).find? (isMarked host)) := by
  induction location using List.reverseRecOn generalizing steps with
  | nil =>
    have htop : (Path.ofLocation []).ancestorsWithin steps = [.ofLocation []] := by
      cases steps <;> rfl
    rw [htop]
    refine finds_cons hproper fun hnot => .nothing fun dir hdir => ?_
    rwa [List.prefix_nil.1 hdir]
  | append_singleton ns n ih =>
    obtain ⟨steps, rfl⟩ : ∃ k, steps = k + 1 := by
      cases steps with
      | zero => simp at hsteps
      | succ k => exact ⟨k, rfl⟩
    rw [Path.ancestorsWithin, Path.parent_ofLocation hproper]
    rw [Option.map_some, Option.getD_some]
    rw [List.length_append, List.length_singleton] at hsteps
    have hrest := @ih (fun m hm => hproper m (by simp [hm])) steps (by omega)
    exact finds_cons hproper hrest.concat

lemma length_le_glue (ns : List (List UInt8)) : ns.length ≤ (Text.glue slash ns).length + 1 := by
  induction ns with
  | nil => simp
  | cons n ns ih =>
    cases ns with
    | nil => simp
    | cons m ns =>
      rw [Text.glue_cons (List.cons_ne_nil m ns)]
      simp only [List.length_cons, List.length_append] at ih ⊢
      omega

lemma finds_ancestors (host : Host) (hproper : ∀ n ∈ location, n.IsProper) :
    Finds host location ((Path.ofLocation location).ancestors.find? (isMarked host)) :=
  finds_ancestorsWithin hproper (length_le_glue location)

lemma rootFrom_of_closest (hproper : ∀ n ∈ location, n.IsProper)
    (h : Closest host location root) :
    rootFrom host (.ofLocation location) = .ofLocation root := by
  have hfinds := finds_ancestors host hproper
  rw [rootFrom]
  generalize (Path.ofLocation location).ancestors.find? (isMarked host) = found at hfinds
  cases hfinds with
  | closest h' => rw [h.unique h', Option.getD_some]
  | nothing hnone => exact absurd h.marked (hnone root h.above)

lemma rootFrom_of_unmarked (hproper : ∀ n ∈ location, n.IsProper)
    (h : ∀ dir, dir <+: location → ¬ IsMarkedAt host dir) :
    rootFrom host (.ofLocation location) = .ofLocation location := by
  have hfinds := finds_ancestors host hproper
  rw [rootFrom]
  generalize (Path.ofLocation location).ancestors.find? (isMarked host) = found at hfinds
  cases hfinds with
  | closest h' => exact absurd h'.marked (h _ h'.above)
  | nothing => rfl

lemma exists_closest (hproper : ∀ n ∈ location, n.IsProper)
    (h : ∃ dir, dir <+: location ∧ IsMarkedAt host dir) : ∃ root, Closest host location root := by
  have hfinds := finds_ancestors host hproper
  generalize (Path.ofLocation location).ancestors.find? (isMarked host) = found at hfinds
  cases hfinds with
  | closest h' => exact ⟨_, h'⟩
  | nothing hnone =>
    obtain ⟨dir, hdir, hmarked⟩ := h
    exact absurd hmarked (hnone dir hdir)

end Project

/-! ### Another working directory -/

section

variable {host : Host} {dir : List Name} {p : Path}

lemma Host.entry_seenFrom (h : p.isAbsolute = true) (through : Bool) :
    (host.seenFrom dir).entry p through = host.entry p through := by
  simp [entry, locate, seenFrom, h]

lemma Host.isFile_seenFrom (h : p.isAbsolute = true) :
    (host.seenFrom dir).isFile p = host.isFile p := by
  simp [isFile, entry_seenFrom h]

lemma Host.readText_seenFrom (h : p.isAbsolute = true) :
    (host.seenFrom dir).readText p = host.readText p := by
  simp [readText, entry_seenFrom h]

lemma Settings.load_seenFrom (h : p.isAbsolute = true) :
    load (host.seenFrom dir) p = load host p := by
  have hfile (name : String) : (p.join (.ofString name)).isAbsolute = true := by simp [h]
  simp only [load, loadFile, loadProject, readFile, Host.isFile_seenFrom (hfile _),
    Host.readText_seenFrom (hfile _)]

lemma Project.isMarkedAt_seenFrom {location : List Name} :
    IsMarkedAt (host.seenFrom dir) location ↔ IsMarkedAt host location := by
  simp only [IsMarkedAt, Host.entry_seenFrom (Path.isAbsolute_ofLocation _)]

lemma Project.closest_seenFrom {location root : List Name} :
    Closest (host.seenFrom dir) location root ↔ Closest host location root := by
  constructor
  · rintro ⟨above, marked, deepest⟩
    simp only [isMarkedAt_seenFrom] at marked deepest
    exact ⟨above, marked, deepest⟩
  · rintro ⟨above, marked, deepest⟩
    simp only [← @isMarkedAt_seenFrom host dir] at marked deepest
    exact ⟨above, marked, deepest⟩

end

namespace Project

/-- **The root of a project.** The search from a location finds the deepest marked directory at or
above it, and the location itself when there is none; a search from what it finds goes no further.
A run that is started at another place, in another directory, with the same marked root is set up in
the same way, or fails in the same way. -/
theorem rootFrom_closest (host : Host) (location : List Name)
    (hproper : ∀ n ∈ location, n.IsProper) :
    ((∃ dir, dir <+: location ∧ IsMarkedAt host dir) → ∃ root, Closest host location root ∧
      rootFrom host (.ofLocation location) = .ofLocation root) ∧
    ((∀ dir, dir <+: location → ¬ IsMarkedAt host dir) →
      rootFrom host (.ofLocation location) = .ofLocation location) ∧
    (∃ root, root <+: location ∧ rootFrom host (.ofLocation location) = .ofLocation root ∧
      rootFrom host (.ofLocation root) = .ofLocation root) ∧
    ∀ (other : List Name), (∀ n ∈ other, n.IsProper) →
      (∃ root, Closest host location root ∧ Closest host other root) →
      ∀ (dir : List Name) (asked asked' : Configuration.Request),
        asked'.pluginDirectory = asked.pluginDirectory → asked'.output = asked.output →
        host.canonical (.ofString (asked.projectRoot.getD ".")) = .ok (.ofLocation location) →
        (host.seenFrom dir).canonical (.ofString (asked'.projectRoot.getD ".")) =
          .ok (.ofLocation other) →
        Configuration.resolve (host.seenFrom dir) asked' = Configuration.resolve host asked := by
  refine ⟨fun h => ?_, rootFrom_of_unmarked hproper, ?_, ?_⟩
  · obtain ⟨root, hroot⟩ := exists_closest hproper h
    exact ⟨root, hroot, rootFrom_of_closest hproper hroot⟩
  · by_cases h : ∃ dir, dir <+: location ∧ IsMarkedAt host dir
    · obtain ⟨root, hroot⟩ := exists_closest hproper h
      have hinside : ∀ n ∈ root, n.IsProper := fun n hn => hproper n (hroot.above.subset hn)
      exact ⟨root, hroot.above, rootFrom_of_closest hproper hroot,
        rootFrom_of_closest hinside (closest_self hroot.marked)⟩
    · have hself := rootFrom_of_unmarked hproper fun dir hdir hmarked => h ⟨dir, hdir, hmarked⟩
      exact ⟨location, List.prefix_rfl, hself, hself⟩
  · rintro other hother ⟨root, hroot, hroot'⟩ dir asked asked' hplugin houtput hstart hstart'
    rw [Settings.resolve_of_load hstart, Settings.resolve_of_load hstart',
      rootFrom_of_closest hproper hroot, rootFrom_of_closest hother (closest_seenFrom.2 hroot'),
      Settings.load_seenFrom (Path.isAbsolute_ofLocation root), hplugin, houtput]
    rfl

/-- A machine whose top directory is marked, and a directory in it by a link. A link below that
leads nowhere. -/
def markedHost : Host where
  tree := .directory [] [
    .directory ".git".toList [],
    .directory "site".toList [
      .link "aquifer-coder.yml".toList (.ofString "../saved"),
      .directory "sub".toList [
        .link ".git".toList (.ofString "lost"), .directory "deep".toList []],
      .directory "other".toList []],
    .file "saved".toList []]
  workingDirectory := ["site".toList, "sub".toList, "deep".toList]
  pluginHome := none
  noColor := false
  programDirectory := .ofString "/"

lemma closest_markedHost :
    Closest markedHost ["site".toList, "sub".toList, "deep".toList] ["site".toList] ∧
      Closest markedHost ["site".toList, "other".toList] ["site".toList] := by
  have hmarked : isMarked markedHost (.ofLocation ["site".toList]) = true := by cbv
  have hsub : isMarked markedHost (.ofLocation ["site".toList, "sub".toList]) = false := by cbv
  have hdeep : isMarked markedHost
      (.ofLocation ["site".toList, "sub".toList, "deep".toList]) = false := by cbv
  have hother : isMarked markedHost (.ofLocation ["site".toList, "other".toList]) = false := by cbv
  have hsite := closest_self ((isMarked_iff (by decide)).1 hmarked)
  have hnot {location : List Name} (hproper : ∀ n ∈ location, n.IsProper)
      (h : isMarked markedHost (.ofLocation location) = false) :
      ¬ IsMarkedAt markedHost location := by
    rw [← isMarked_iff hproper, h]
    exact Bool.false_ne_true
  exact ⟨(hsite.concat (hnot (by decide) hsub)).concat (hnot (by decide) hdeep),
    hsite.concat (hnot (by decide) hother)⟩

/-- The link that leads somewhere counts and the lost one does not, and a run started in the marked
directory on a directory beside the first start is set up as the one started there. -/
theorem rootFrom_of_linked_marker :
    rootFrom markedHost (.ofString "/site/sub/deep") = .ofString "/site" ∧
      Configuration.resolve (markedHost.seenFrom ["site".toList]) ⟨some "other", none, none⟩ =
        Configuration.resolve markedHost ⟨none, none, none⟩ := by
  obtain ⟨hdeep, hother⟩ := closest_markedHost
  obtain ⟨hmarked, -, -, hsame⟩ :=
    rootFrom_closest markedHost ["site".toList, "sub".toList, "deep".toList] (by decide)
  constructor
  · obtain ⟨root, hroot, hfound⟩ := hmarked ⟨_, hdeep.above, hdeep.marked⟩
    rw [hroot.unique hdeep] at hfound
    exact hfound
  · exact hsame ["site".toList, "other".toList] (by decide) ⟨_, hdeep, hother⟩ _ _ _ rfl rfl
      (by cbv) (by cbv)

end Project

end SiteLint
