import SiteLint.Proofs.DirectoryWalk
import SiteLint.Proofs.PathText
import SiteLint.Proofs.Results

/-!
What the paths of targets have from the root.

On the way from the root of a project to a target, or to a file it stands for, a path takes up texts
of the settings or the command line and names that stand in directories, and nothing else. What these
pass on therefore holds of all such paths. From an absolute root they are all absolute: they start
with a slash, and no tool takes one for an option. When the root and all names are texts, so are the
paths, and each can be read back from its text.
-/

namespace SiteLint

/-- The argument is read as a path from the top directory, and not as an option. -/
def StartsWithSlash (argument : String) : Prop := argument.toList.head? = some '/'

namespace Path

lemma isAbsolute_child {p : Path} (hp : p.isAbsolute = true) (n : Name) :
    (p.child n).isAbsolute = true := by
  simp [child, hp]

/-- A property of absolute paths that goes over to what is found from them, by a text or by a name
in `N`. -/
structure HandsOn (N : Name → Prop) (P : Path → Prop) : Prop where
  absolute {p : Path} : P p → p.isAbsolute = true
  top : P ⟨[slash]⟩
  child {p : Path} {n : Name} : P p → N n → P (p.child n)
  join {p : Path} (text : String) : P p → P (p.join (.ofString text))
  texts (cs : List Char) : N (Text.Utf8.encode cs)

lemma handsOn_absolute : HandsOn (fun _ => True) fun p => p.isAbsolute = true where
  absolute h := h
  top := rfl
  child h _ := isAbsolute_child h _
  join text h := by simp [h]
  texts _ := trivial

lemma IsText.child {p : Path} {n : Name} (hp : p.IsText) (hn : n.IsText) : (p.child n).IsText :=
  hp.join (isText_iff.2 hn)

end Path

/-! ### The names of a tree -/

namespace Entry

variable {N : Name → Prop}

/-- The names in the directory, and in all directories below it, are in `N`. -/
inductive AllNames (N : Name → Prop) : Entry → Prop
  | file (n : Name) (bytes : List UInt8) : AllNames N (.file n bytes)
  | link (n : Name) (target : Path) : AllNames N (.link n target)
  | directory (n : Name) (es : List Entry) (here : ∀ e ∈ es, N e.name)
      (inside : ∀ e ∈ es, AllNames N e) : AllNames N (.directory n es)

lemma allNames_of_forall (h : ∀ n, N n) (e : Entry) : e.AllNames N := by
  induction e using nested_induction with
  | file n bytes => exact .file n bytes
  | link n target => exact .link n target
  | directory n es ih => exact .directory n es (fun d _ => h d.name) ih

@[simp] lemma allNames_file (n : Name) (bytes : List UInt8) : (file n bytes).AllNames N :=
  .file n bytes

@[simp] lemma allNames_directory {n : Name} {es : List Entry} :
    (directory n es).AllNames N ↔ ∀ e ∈ es, N e.name ∧ e.AllNames N := by
  constructor
  · rintro (_ | _ | ⟨_, _, here, inside⟩)
    exact fun e he => ⟨here e he, inside e he⟩
  · exact fun h => .directory n es (fun e he => (h e he).1) fun e he => (h e he).2

lemma AllNames.entries {e : Entry} (h : e.AllNames N) :
    ∀ d ∈ e.entries, N d.name ∧ d.AllNames N := by
  cases e with
  | file | link => simp [Entry.entries]
  | directory n es => exact allNames_directory.1 h

lemma AllNames.of_at {tree e : Entry} {l : List Name} (h : tree.AllNames N)
    (he : tree.at? l = some e) : e.AllNames N :=
  at?_hereditary (fun _ _ hes d hd => (hes.entries d hd).2) h he

end Entry

section

variable {N : Name → Prop} {P : Path → Prop} {host : Host} {dir p : Path}

/-! ### Directories -/

namespace Host

lemma allNames_of_entry {through : Bool} {e : Entry} (hnames : host.tree.AllNames N)
    (h : host.entry p through = .ok e) : e.AllNames N := by
  obtain ⟨l, -, hat⟩ := entry_eq_ok.1 h
  exact hnames.of_at hat

lemma name_of_mem_listing (hnames : host.tree.AllNames N) {e : Entry}
    (h : e ∈ host.listing dir) : N e.name := by
  unfold listing at h
  split at h
  · rename_i hentry
    exact ((allNames_of_entry hnames hentry).entries e (List.mem_mergeSort.1 h)).1
  · cases h

end Host

section

variable (hchild : ∀ ⦃p : Path⦄ ⦃n : Name⦄, P p → N n → P (p.child n))

include hchild

lemma Entry.AllNames.handedOn_filesAt {e : Entry} (he : e.AllNames N) (hdir : P dir)
    (h : p ∈ e.filesAt dir) : P p := by
  induction he generalizing dir with
  | file n bytes =>
    obtain rfl : p = dir := by simpa [filesAt] using h
    exact hdir
  | link n target => simp [filesAt] at h
  | directory n es here inside ih =>
    rw [filesAt] at h
    split at h
    · cases h
    · obtain ⟨d, hd, hp⟩ := mem_inNameOrder.1 h
      exact ih d hd (hchild hdir (here d hd)) hp

lemma Host.handedOn_filesBeneath (hnames : host.tree.AllNames N) (hdir : P dir)
    (h : p ∈ host.filesBeneath dir) : P p := by
  have hentries {through : Bool} {n : Name} {es : List Entry}
      (hentry : host.entry dir through = .ok (.directory n es))
      (hp : p ∈ Entry.inNameOrder (Entry.filesAmong dir es)) : P p := by
    obtain ⟨d, hd, hp⟩ := Entry.mem_inNameOrder.1 hp
    obtain ⟨hn, hbelow⟩ := (allNames_of_entry hnames hentry).entries d hd
    exact hbelow.handedOn_filesAt hchild (hchild hdir hn) hp
  unfold filesBeneath at h
  split at h
  · obtain rfl : p = dir := by simpa using h
    exact hdir
  · exact hentries ‹_› h
  · split at h
    · exact hentries ‹_› h
    · cases h
  · cases h

end

/-! ### Patterns -/

namespace Glob

lemma under_eq_child (hdir : dir.isAbsolute = true) (n : Name) : under dir n = dir.child n := by
  have hdot : dir.bytes ≠ [dot] := by
    intro h
    rw [Path.isAbsolute, h] at hdir
    exact absurd hdir (by decide)
  rw [under, if_neg hdot]

section

variable (hP : Path.HandsOn N P)

include hP

lemma handedOn_under (hdir : P dir) {n : Name} (hn : N n) : P (under dir n) := by
  rw [under_eq_child (hP.absolute hdir)]
  exact hP.child hdir hn

lemma handedOn_descendants {depth : Nat} (hnames : host.tree.AllNames N) (hdir : P dir)
    (h : p ∈ descendants host depth dir) : P p := by
  induction depth generalizing dir with
  | zero => cases h
  | succ depth ih =>
    simp only [descendants, List.mem_flatMap] at h
    obtain ⟨e, he, h⟩ := h
    have hunder := handedOn_under hP hdir (Host.name_of_mem_listing hnames he)
    rcases List.mem_cons.1 h with rfl | h
    · exact hunder
    · split at h
      · exact ih hunder h
      · cases h

lemma handedOn_meets {pattern : Pattern} (hnames : host.tree.AllNames N) (hdir : P dir)
    (h : p ∈ meets host pattern dir) : P p := by
  simp only [meets, List.mem_append, List.mem_map] at h
  rcases h with ⟨n, hn, rfl⟩ | ⟨e, he, rfl⟩
  · refine hP.child hdir ?_
    split at hn
    · have hdots : n = [dot, dot] ∨ n = [dot] := by simpa using (List.mem_filter.1 hn).1
      rcases hdots with rfl | rfl
      · exact hP.texts ['.', '.']
      · exact hP.texts ['.']
    · cases hn
  · exact handedOn_under hP hdir (Host.name_of_mem_listing hnames (List.mem_filter.1 he).1)

lemma handedOn_search {onlyDirectories : Bool} {patterns : List Pattern}
    (hnames : host.tree.AllNames N) (hdir : P dir)
    (h : p ∈ search host onlyDirectories patterns dir) : P p := by
  fun_induction search host onlyDirectories patterns dir with
  | case1 | case6 => cases h
  | case2 here =>
    obtain rfl : p = here := by simpa using h
    exact hdir
  | case3 dir => exact handedOn_descendants hP hnames hdir (List.mem_filter.1 h).1
  | case4 dir next rest ih =>
    obtain ⟨q, hq, hp⟩ := List.mem_flatMap.1 h
    exact ih q (handedOn_descendants hP hnames hdir (List.mem_filter.1 hq).1) hp
  | case5 dir rest ts cs hcs n next hthere ih =>
    exact ih (handedOn_under hP hdir (hP.texts cs)) h
  | case7 dir rest ts hnone ih =>
    obtain ⟨q, hq, hp⟩ := List.mem_flatMap.1 h
    exact ih q (handedOn_meets hP hnames hdir hq) hp

lemma handedOn_pathsMatching {root : Path} {entry : List Char} {ps : List Path}
    (hnames : host.tree.AllNames N) (hroot : P root)
    (h : pathsMatching? host root entry = some ps) : ∀ p ∈ ps, P p := by
  simp only [pathsMatching?, Option.bind_eq_bind, Option.bind_eq_some_iff] at h
  obtain ⟨patterns, -, h⟩ := h
  intro p hp
  split at h
  · cases h
    exact handedOn_search hP hnames hP.top hp
  · rename_i hhead
    split at h
    · cases h
      exact handedOn_search hP hnames hP.top hp
    · -- without slashes at its end, an absolute path is empty or starts with a slash
      rename_i hempty
      obtain ⟨d, base, hbase⟩ := List.exists_cons_of_ne_nil hempty
      obtain ⟨tail, htail⟩ : (root.toString.toList.reverse.dropWhile (· = '/')).reverse <+:
          root.toString.toList := List.rdropWhile_prefix _ _
      rw [hbase] at hhead htail
      have hd : d = '/' := by
        simpa [← htail] using Path.head_toString.2 (hP.absolute hroot)
      exact absurd (by simp [hd]) hhead

end

end Glob

/-! ### Targets -/

namespace Target

variable {c : LinterConfig} {root : Path}

lemma mem_of_mem_distinct {p : Path} {ps : List Path} (h : p ∈ distinct ps) : p ∈ ps := by
  induction ps with
  | nil => cases h
  | cons q ps ih =>
    rcases List.mem_cons.1 h with rfl | h
    · exact List.mem_cons_self
    · exact List.mem_cons_of_mem _ (ih (List.mem_filter.1 h).1)

lemma mem_configured {t : Target} (h : t ∈ configured host c root) :
    ∃ p, t = .file p ∧ ∃ entry ∈ c.targets, ∃ ps, entryFiles? host c root entry = some ps ∧
      p ∈ ps := by
  obtain ⟨p, hp, rfl⟩ := List.mem_map.1 h
  obtain ⟨entry, hentry, hp⟩ := List.mem_flatMap.1 (mem_of_mem_distinct hp)
  cases hps : entryFiles? host c root entry with
  | none => simp [hps] at hp
  | some ps => exact ⟨p, rfl, entry, hentry, ps, hps, by simpa [hps] using hp⟩

section

variable (hP : Path.HandsOn N P)

include hP

lemma handedOn_entryFiles {entry : String} {ps : List Path} (hnames : host.tree.AllNames N)
    (hroot : P root) (h : entryFiles? host c root entry = some ps) : ∀ p ∈ ps, P p := by
  have hjoin := hP.join entry hroot
  intro p hp
  unfold entryFiles? at h
  split at h
  · obtain ⟨qs, hqs, rfl⟩ := Option.map_eq_some_iff.1 h
    exact Glob.handedOn_pathsMatching hP hnames hroot hqs p (List.mem_filter.1 hp).1
  · cases h
    split at hp
    · exact Host.handedOn_filesBeneath (fun _ _ => hP.child) hnames hjoin (List.mem_filter.1 hp).1
    · split at hp
      · obtain rfl : p = _ := by simpa using hp
        exact hjoin
      · cases hp

end

variable {linter : String} {scope : Scope} {name : Option String} {ts : List Target}

lemma isAbsolute_of_entryFiles {entry : String} {ps : List Path} (hroot : root.isAbsolute = true)
    (h : entryFiles? host c root entry = some ps) : ∀ p ∈ ps, p.isAbsolute = true :=
  handedOn_entryFiles Path.handsOn_absolute (Entry.allNames_of_forall (fun _ => trivial) _) hroot h

end Target

end

end SiteLint
