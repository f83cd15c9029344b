import SiteLint.Proofs.TargetResolution

/-!
What each configured entry adds to the targets.

The entries are taken in their order, and of the files of an entry those are kept that no earlier
entry gave. So an entry can only add to what the ones before it give, and one that gives no files
leaves no trace.
-/

namespace SiteLint

lemma Path.same_iff {p q : Path} : p.same q = true ↔ p.components = q.components := by
  simp [same]

namespace Target

/-! ### Keeping the first of each -/

/-- The paths kept so far, with one path more if none of them is the same. -/
def keep (kept : List Path) (p : Path) : List Path :=
  if kept.any (·.same p) then kept else kept ++ [p]

/-- What is kept stays where it is, and of the paths that come the first of each is put behind it,
unless it is kept already. -/
lemma foldl_keep (kept ps : List Path) :
    ps.foldl keep kept = kept ++ (distinct ps).filter fun p => !kept.any (·.same p) := by
  induction ps generalizing kept with
  | nil => simp [distinct]
  | cons p ps ih =>
    rw [List.foldl_cons, ih, distinct]
    by_cases hp : kept.any (·.same p) = true
    · -- whatever is the same as the path is the same as what is kept for it
      have hlater : ∀ q ∈ distinct ps,
          (!kept.any (·.same q)) = ((!kept.any (·.same q)) && !p.same q) := by
        intro q _
        obtain ⟨k, hk, hkp⟩ := List.any_eq_true.1 hp
        cases hpq : p.same q with
        | false => simp
        | true =>
          have hkq : k.same q = true :=
            Path.same_iff.2 ((Path.same_iff.1 hkp).trans (Path.same_iff.1 hpq))
          have hany : kept.any (·.same q) = true := List.any_eq_true.2 ⟨k, hk, hkq⟩
          simp [hany]
      rw [keep, if_pos hp, List.filter_cons_of_neg (by simp [hp]), List.filter_filter,
        List.filter_congr hlater]
    · rw [keep, if_neg hp, List.filter_cons_of_pos (by simpa using hp), List.filter_filter]
      simp [List.any_append, Bool.and_comm]

lemma distinct_eq_foldl (ps : List Path) : distinct ps = ps.foldl keep [] := by
  simp [foldl_keep]

lemma distinct_append (ps qs : List Path) :
    distinct (ps ++ qs) =
      distinct ps ++ (distinct qs).filter fun q => !(distinct ps).any (·.same q) := by
  rw [distinct_eq_foldl (ps ++ qs), List.foldl_append, ← distinct_eq_foldl, foldl_keep]

lemma exists_same_of_mem {p : Path} {ps : List Path} (h : p ∈ ps) :
    ∃ q ∈ distinct ps, p.same q = true := by
  induction ps with
  | nil => cases h
  | cons a ps ih =>
    rw [distinct]
    have hself : a.same a = true := Path.same_iff.2 rfl
    rcases List.mem_cons.1 h with rfl | h
    · exact ⟨p, List.mem_cons_self, hself⟩
    · obtain ⟨q, hq, hpq⟩ := ih h
      cases haq : a.same q with
      | true =>
        have hpa : p.same a = true :=
          Path.same_iff.2 ((Path.same_iff.1 hpq).trans (Path.same_iff.1 haq).symm)
        exact ⟨a, List.mem_cons_self, hpa⟩
      | false =>
        exact ⟨q, List.mem_cons_of_mem _ (List.mem_filter.2 ⟨hq, by simp [haq]⟩), hpq⟩

/-! ### Entries -/

variable (host : Host) (c : LinterConfig) (root : Path)

/-- The files of entries, one entry after the other. -/
def listed (entries : List String) : List Path :=
  entries.flatMap fun e => (entryFiles? host c root e).getD []

/-- The targets that entries stand for, for a linter that is else set up as it is. -/
def ofEntries (entries : List String) : List Target :=
  configured host { c with targets := entries } root

lemma ofEntries_eq (entries : List String) :
    ofEntries host c root entries = (distinct (listed host c root entries)).map .file := rfl

lemma any_same_map_file (ps : List Path) (q : Path) :
    ((ps.map file).any fun t => t.path.same q) = ps.any (·.same q) := by
  simp [List.any_map, Function.comp_def, path]

/-- The entry is one that gives no files. -/
inductive Fruitless (entry : String) : Prop
  /-- Nothing is there. -/
  | missing (hplain : Glob.hasWildcard entry.toList = false)
    (habsent : host.pathExists (root.join (.ofString entry)) = false)
  /-- What is there is no directory and has no extension of the linter's. -/
  | unsupported (hplain : Glob.hasWildcard entry.toList = false)
    (hdir : host.isDirectory (root.join (.ofString entry)) = false)
    (hextension : c.accepts (root.join (.ofString entry)) = false)
  /-- It looks like a pattern, and a piece of it is none. -/
  | invalid (hwild : Glob.hasWildcard entry.toList = true)
    (hpattern : (Glob.terminatedPieces entry.toList).mapM Glob.compile? = none)

variable {host c root}

lemma files_of_fruitless {entry : String} (h : Fruitless host c root entry) :
    (entryFiles? host c root entry).getD [] = [] := by
  unfold entryFiles?
  cases h with
  | missing hplain habsent =>
    have hnothing : ∀ d, host.entry (root.join (.ofString entry)) true ≠ .ok d := by
      intro d hd
      simp [Host.pathExists, hd, Except.isOk, Except.toBool] at habsent
    have hdir : host.isDirectory (root.join (.ofString entry)) = false := by
      rw [← Bool.not_eq_true, Host.isDirectory_iff]
      rintro ⟨d, hd, -⟩
      exact hnothing d hd
    have hfile : host.isFile (root.join (.ofString entry)) = false := by
      unfold Host.isFile
      split
      · rename_i d hd
        exact absurd hd (hnothing d)
      · rfl
    simp [hplain, hdir, hfile]
  | unsupported hplain hdir hextension => simp [hplain, hdir, hextension]
  | invalid hwild hpattern => simp [hwild, Glob.pathsMatching?, hpattern]

lemma listed_append (as bs : List String) :
    listed host c root (as ++ bs) = listed host c root as ++ listed host c root bs :=
  List.flatMap_append

lemma listed_insert {entry : String} (h : Fruitless host c root entry) (as bs : List String) :
    listed host c root (as ++ entry :: bs) = listed host c root (as ++ bs) := by
  rw [listed_append, listed_append, listed, listed, List.flatMap_cons, files_of_fruitless h,
    List.nil_append]
  rfl

/-- **Configured entries** do not interfere. Two lists of entries give what the first one gives and
then what only the second one gives, so no file is given twice, entries that are added only append
files, and the order of the entries does not matter to which files there are. An entry without
files adds nothing and takes nothing away. -/
theorem entries_independent (host : Host) (c : LinterConfig) (root : Path) :
    let given := ofEntries host c root
    (∀ as bs, given (as ++ bs) =
      given as ++ (given bs).filter fun t => !(given as).any fun s => s.path.same t.path) ∧
    (∀ as, (given as).Pairwise fun s t => s.path.same t.path = false) ∧
    (∀ as bs, given as <+: given (as ++ bs)) ∧
    (∀ as bs, as.Perm bs → ∀ s ∈ given as, ∃ t ∈ given bs, s.path.same t.path = true) ∧
    ∀ entry, Fruitless host c root entry →
      given [entry] = [] ∧ ∀ as bs, given (as ++ entry :: bs) = given (as ++ bs) := by
  intro given
  have happend (as bs : List String) : given (as ++ bs) =
      given as ++ (given bs).filter fun t => !(given as).any fun s => s.path.same t.path := by
    simp only [given, ofEntries_eq, listed_append, distinct_append, List.map_append,
      List.filter_map, any_same_map_file]
    rfl
  refine ⟨happend, fun as => ?_, fun as bs => ?_, fun as bs hperm s hs => ?_,
    fun entry hentry => ⟨?_, fun as bs => ?_⟩⟩
  · exact List.pairwise_map.2 (pairwise_distinct _)
  · rw [happend]
    exact List.prefix_append _ _
  · obtain ⟨p, hp, rfl⟩ := List.mem_map.1 hs
    have hlisted : p ∈ listed host c root as := mem_of_mem_distinct hp
    obtain ⟨q, hq, hsame⟩ := exists_same_of_mem ((hperm.flatMap_right _).mem_iff.1 hlisted)
    exact ⟨.file q, List.mem_map_of_mem hq, hsame⟩
  · have hnothing : listed host c root [entry] = [] := listed_insert hentry [] []
    simp [given, ofEntries_eq, hnothing, distinct]
  · simp only [given, ofEntries_eq, listed_insert hentry]

/-- A file that two entries give, and between them entries that give none. -/
theorem entries_of_source :
    let given := ofEntries sourceHost (sourceConfig []) (.ofString "/")
    Fruitless sourceHost (sourceConfig []) (.ofString "/") "gone" ∧
      Fruitless sourceHost (sourceConfig []) (.ofString "/") "a[" ∧
      given ["src", "gone", "a[", "*/a.js", "b.js"] =
        [.file (.ofString "/src/a.js"), .file (.ofString "/b.js")] := by
  have hgone : Fruitless sourceHost (sourceConfig []) (.ofString "/") "gone" :=
    .missing (by decide) (by cbv)
  have hopen : Fruitless sourceHost (sourceConfig []) (.ofString "/") "a[" :=
    .invalid (by decide) (by cbv)
  obtain ⟨-, -, -, -, hfruitless⟩ :=
    entries_independent sourceHost (sourceConfig []) (.ofString "/")
  have hfirst := (hfruitless "gone" hgone).2 ["src"] ["a[", "*/a.js", "b.js"]
  have hsecond := (hfruitless "a[" hopen).2 ["src"] ["*/a.js", "b.js"]
  have hrest : ofEntries sourceHost (sourceConfig []) (.ofString "/")
      ["src", "*/a.js", "b.js"] = [.file (.ofString "/src/a.js"), .file (.ofString "/b.js")] := by
    cbv
  exact ⟨hgone, hopen, hfirst.trans (hsecond.trans hrest)⟩

end Target

end SiteLint
