import Mathlib
import SiteLint.Proofs.PathLookup
import SiteLint.Target

/-!
The files beneath a directory.

They come each once and in the order of their paths compared name by name: what is in the directory
`a` comes before `a.js`. Only what the directory holds counts, not the order in which its entries
are stored. All are there, at any depth, but those in directories whose paths are too long: the
walk opens a directory by its whole path, and passes over what it cannot open without a word.
-/

namespace SiteLint

namespace Entry

/-- There is a regular file at a location below this entry. No link leads there. -/
def HoldsFile (e : Entry) (l : List Name) : Prop := ∃ n bytes, e.at? l = some (.file n bytes)

lemma holdsFile_file {n : Name} {bytes : List UInt8} {l : List Name} :
    (file n bytes).HoldsFile l ↔ l = [] := by
  cases l <;> simp [HoldsFile, at?]

lemma not_holdsFile_link {n : Name} {target : Path} {l : List Name} :
    ¬ (link n target).HoldsFile l := by
  cases l <;> simp [HoldsFile, at?]

lemma holdsFile_directory {n : Name} {es : List Entry} {l : List Name}
    (h : (es.map name).Nodup) :
    (directory n es).HoldsFile l ↔ ∃ e ∈ es, ∃ l', l = e.name :: l' ∧ e.HoldsFile l' := by
  cases l with
  | nil => simp [HoldsFile, at?]
  | cons m l =>
    constructor
    · rintro ⟨k, bytes, hat⟩
      rw [at?_cons] at hat
      obtain ⟨e, hfind, he⟩ := Option.bind_eq_some_iff.1 hat
      obtain ⟨hmem, rfl⟩ := (find?_eq_some_iff h).1 hfind
      exact ⟨e, hmem, l, rfl, k, bytes, he⟩
    · rintro ⟨e, hmem, l', heq, k, bytes, he⟩
      obtain ⟨rfl, rfl⟩ : m = e.name ∧ l = l' := by simpa using heq
      refine ⟨k, bytes, ?_⟩
      rw [at?_cons, (find?_eq_some_iff h).2 ⟨hmem, rfl⟩, Option.bind_some, he]

lemma SameContent.holdsFile {e₁ e₂ : Entry} (h : SameContent e₁ e₂) {l : List Name} :
    e₁.HoldsFile l ↔ e₂.HoldsFile l := by
  have hiff (e : Entry) : e.HoldsFile l ↔ ∃ n bytes, (e.at? l).map bare = some (.file n bytes) := by
    unfold HoldsFile
    cases e.at? l with
    | none => simp
    | some d => cases d <;> simp [bare]
  rw [hiff, hiff, h l]

/-! ### The walk -/

lemma filesAmong_eq (dir : Path) (es : List Entry) :
    filesAmong dir es = es.map fun e => (e.name, e.filesAt (dir.child e.name)) := by
  induction es with
  | nil => rfl
  | cons e es ih => rw [filesAmong, ih, List.map_cons]

lemma mem_inNameOrder {dir p : Path} {es : List Entry} :
    p ∈ inNameOrder (filesAmong dir es) ↔ ∃ e ∈ es, p ∈ e.filesAt (dir.child e.name) := by
  rw [inNameOrder, filesAmong_eq, List.mem_flatMap]
  constructor
  · rintro ⟨block, hblock, hp⟩
    obtain ⟨e, hmem, rfl⟩ := List.mem_map.1 (List.mem_mergeSort.1 hblock)
    exact ⟨e, hmem, hp⟩
  · rintro ⟨e, hmem, hp⟩
    exact ⟨_, List.mem_mergeSort.2 (List.mem_map_of_mem hmem), hp⟩

lemma HoldsFile.proper {e : Entry} {l : List Name} (h : e.HoldsFile l) (he : e.WellFormed) :
    ∀ n ∈ l, n.IsProper := by
  obtain ⟨n, bytes, hat⟩ := h
  exact he.proper_of_at hat

/-- The directory that the last name of `l` stands in can be opened, when `l` leads on from `path`. -/
def Opens (path : Path) (l : List Name) : Prop :=
  l ≠ [] → (path.descend l.dropLast).bytes.length < Path.limit

lemma opens_cons {path : Path} {n : Name} {l : List Name} (hpath : path.bytes ≠ [])
    (hn : n.IsProper) (hl : ∀ m ∈ l, m.IsProper) :
    Opens path (n :: l) ↔ path.bytes.length < Path.limit ∧ Opens (path.child n) l := by
  cases l with
  | nil => simp [Opens, Path.descend]
  | cons m l =>
    have habove : ∀ k ∈ (m :: l).dropLast, k.IsProper := fun k hk =>
      hl k (List.dropLast_subset _ hk)
    have hchild := Path.le_length_child hpath hn
    have hrest := Path.length_le_descend (Path.bytes_child_ne_nil hpath hn) habove
    have hdescend : path.descend (n :: m :: l).dropLast =
        (path.child n).descend (m :: l).dropLast := rfl
    simp only [Opens, ne_eq, reduceCtorEq, not_false_eq_true, true_implies, hdescend]
    omega

/-- The walk finds the files in directories that can be opened, and nothing else. -/
lemma mem_filesAt {e : Entry} (he : e.WellFormed) {path p : Path} (hpath : path.bytes ≠ []) :
    p ∈ e.filesAt path ↔ ∃ l, e.HoldsFile l ∧ Opens path l ∧ p = path.descend l := by
  induction he generalizing path with
  | file => simp [filesAt, holdsFile_file, Opens, Path.descend]
  | link => simp [filesAt, not_holdsFile_link]
  | directory n es distinct proper inside ih =>
    have hentries : p ∈ (directory n es).filesAt path ↔
        path.bytes.length < Path.limit ∧ ∃ e ∈ es, ∃ l, e.HoldsFile l ∧
          Opens (path.child e.name) l ∧ p = path.descend (e.name :: l) := by
      rw [filesAt]
      split
      · rename_i hlong
        simp [hlong]
      · rename_i hshort
        rw [mem_inNameOrder, and_iff_right (Nat.lt_of_not_le hshort)]
        exact exists_congr fun e => and_congr_right fun hmem =>
          ih e hmem (Path.bytes_child_ne_nil hpath (proper e hmem))
    have hopens {e : Entry} (hmem : e ∈ es) {l : List Name} (hl : e.HoldsFile l) :
        Opens path (e.name :: l) ↔
          path.bytes.length < Path.limit ∧ Opens (path.child e.name) l :=
      opens_cons hpath (proper e hmem) (hl.proper (inside e hmem))
    rw [hentries]
    constructor
    · rintro ⟨hshort, e, hmem, l, hl, hopen, rfl⟩
      exact ⟨e.name :: l, (holdsFile_directory distinct).2 ⟨e, hmem, l, rfl, hl⟩,
        (hopens hmem hl).2 ⟨hshort, hopen⟩, rfl⟩
    · rintro ⟨l, hl, hopen, rfl⟩
      obtain ⟨e, hmem, l', rfl, hl'⟩ := (holdsFile_directory distinct).1 hl
      obtain ⟨hshort, hopen'⟩ := (hopens hmem hl').1 hopen
      exact ⟨hshort, e, hmem, l', hl', hopen', rfl⟩

/-- The order of the walk is that of the paths below the start, compared name by name. -/
lemma pairwise_filesAt {e : Entry} (he : e.WellFormed) {path : Path} (hpath : path.bytes ≠ []) :
    (e.filesAt path).Pairwise fun p q => path.namesBelow p < path.namesBelow q := by
  induction he generalizing path with
  | file => simp [filesAt]
  | link => simp [filesAt]
  | directory n es distinct proper inside ih =>
    -- below an entry, its name stands before the names that the walk through it compares
    have hbelow {e : Entry} (hmem : e ∈ es) {p : Path}
        (hp : p ∈ e.filesAt (path.child e.name)) :
        path.namesBelow p = e.name :: (path.child e.name).namesBelow p := by
      have hchild := Path.bytes_child_ne_nil hpath (proper e hmem)
      obtain ⟨l, hl, -, rfl⟩ := (mem_filesAt (inside e hmem) hchild).1 hp
      have hproper := hl.proper (inside e hmem)
      rw [Path.namesBelow_descend hchild hproper]
      exact Path.namesBelow_descend hpath (List.forall_mem_cons.2 ⟨proper e hmem, hproper⟩)
    have hdistinct :
        ((es.map fun e => (e.name, e.filesAt (path.child e.name))).map (·.1)).Nodup := by
      simpa [Function.comp_def] using distinct
    rw [filesAt]
    split
    · exact .nil
    · rw [filesAmong_eq, inNameOrder, List.pairwise_flatMap]
      constructor
      · intro block hblock
        obtain ⟨e, hmem, rfl⟩ := List.mem_map.1 (List.mem_mergeSort.1 hblock)
        have hinside := ih e hmem (Path.bytes_child_ne_nil hpath (proper e hmem))
        refine hinside.imp_of_mem fun hp hq hlt => ?_
        rw [hbelow hmem hp, hbelow hmem hq, List.cons_lt_cons_iff]
        exact .inr ⟨rfl, hlt⟩
      · refine (Name.pairwise_lt hdistinct).imp_of_mem fun hblock₁ hblock₂ hlt => ?_
        obtain ⟨e₁, hmem₁, rfl⟩ := List.mem_map.1 (List.mem_mergeSort.1 hblock₁)
        obtain ⟨e₂, hmem₂, rfl⟩ := List.mem_map.1 (List.mem_mergeSort.1 hblock₂)
        intro p hp q hq
        rw [hbelow hmem₁ hp, hbelow hmem₂ hq, List.cons_lt_cons_iff]
        exact .inl hlt

lemma nodup_filesAt {e : Entry} (he : e.WellFormed) {path : Path} (hpath : path.bytes ≠ []) :
    (e.filesAt path).Nodup := by
  refine (pairwise_filesAt he hpath).imp fun hlt heq => ?_
  rw [heq] at hlt
  exact List.lt_irrefl _ hlt

lemma SameContent.filesAt_eq {e₁ e₂ : Entry} (h : SameContent e₁ e₂) (he₁ : e₁.WellFormed)
    (he₂ : e₂.WellFormed) {path : Path} (hpath : path.bytes ≠ []) :
    e₁.filesAt path = e₂.filesAt path := by
  have hmem (p : Path) : p ∈ e₁.filesAt path ↔ p ∈ e₂.filesAt path := by
    rw [mem_filesAt he₁ hpath, mem_filesAt he₂ hpath]
    exact exists_congr fun l => and_congr_left fun _ => h.holdsFile
  have hperm : (e₁.filesAt path).Perm (e₂.filesAt path) :=
    (List.perm_ext_iff_of_nodup (nodup_filesAt he₁ hpath) (nodup_filesAt he₂ hpath)).2 hmem
  exact hperm.eq_of_pairwise (fun p q _ _ hpq hqp => absurd hqp (List.lt_asymm hpq))
    (pairwise_filesAt he₁ hpath) (pairwise_filesAt he₂ hpath)

end Entry

/-! ### On a machine -/

namespace Host

/-- A path that leads through links leads to the same place when a link at its end is not followed,
or to that link. -/
lemma follow_without {tree : Entry} {links : Nat} {here todo l : List Name}
    (h : follow tree true links here todo = .ok l) :
    follow tree false links here todo = .ok l ∨
      ∃ l' n target, follow tree false links here todo = .ok l' ∧
        tree.at? l' = some (.link n target) := by
  fun_induction follow tree true links here todo with
  | case1 links here =>
    rw [follow]
    exact .inl h
  | case2 links here rest m es hhere ih =>
    have hstep : follow tree false links here ([dot] :: rest) =
        follow tree false links here rest := by
      simp [follow, hhere]
    rw [hstep]
    exact ih h
  | case3 links here rest m es hhere hdot ih =>
    have hstep : follow tree false links here ([dot, dot] :: rest) =
        follow tree false links here.dropLast rest := by
      simp [follow, hhere]
    rw [hstep]
    exact ih h
  | case4 | case5 | case7 | case10 | case11 => cases h
  | case6 links here n rest m es hhere hdot hup hname k target hfind hlast => simp at hlast
  | case8 here n rest m es hhere hdot hup hname k target hfind hlast links ih =>
    by_cases hrest : rest = []
    · -- the link stands at the end
      refine .inr ⟨here ++ [n], k, target, ?_, ?_⟩
      · rw [follow, hhere]
        simp [hdot, hup, hname, hfind, hrest]
      · rw [← Entry.find?_eq_at? hhere, hfind]
    · have hstep : follow tree false (links + 1) here (n :: rest) =
          follow tree false links (if target.isAbsolute then [] else here)
            (target.steps ++ rest) := by
        rw [follow, hhere]
        simp [hdot, hup, hname, hfind, hrest]
      rw [hstep]
      exact ih h
  | case9 links here n rest m es hhere hdot hup hname e hlink hfind ih =>
    have hstep : follow tree false links here (n :: rest) =
        follow tree false links (here ++ [n]) rest := by
      rw [follow, hhere]
      simp [hdot, hup, hname, hfind]
    rw [hstep]
    exact ih h

/-- A step of a lookup asks what there is here and at the next name, and nothing else. -/
lemma follow_cons (tree : Entry) (through : Bool) (links : Nat) (here : List Name) (n : Name)
    (rest : List Name) :
    follow tree through links here (n :: rest) =
      match (tree.at? here).map Entry.bare with
      | some (.directory _ _) =>
        if n = [dot] then follow tree through links here rest
        else if n = [dot, dot] then follow tree through links here.dropLast rest
        else if nameLimit < n.length then .error .nameTooLong
        else
          match (tree.at? (here ++ [n])).map Entry.bare with
          | none => .error .notFound
          | some (.link _ target) =>
            if rest = [] ∧ ¬ through then .ok (here ++ [n])
            else
              match links with
              | 0 => .error .tooManyLinks
              | links + 1 =>
                follow tree through links (if target.isAbsolute then [] else here)
                  (target.steps ++ rest)
          | some _ => follow tree through links (here ++ [n]) rest
      | some _ => .error .notDirectory
      | none => .error .notFound := by
  rw [follow]
  cases hhere : tree.at? here with
  | none => rfl
  | some e =>
    cases e with
    | file | link => rfl
    | directory m es =>
      dsimp only
      rw [Entry.find?_eq_at? hhere n]
      cases tree.at? (here ++ [n]) with
      | none => rfl
      | some d => cases d <;> rfl

lemma follow_sameContent {tree₁ tree₂ : Entry} (h : tree₁.SameContent tree₂) (through : Bool)
    (links : Nat) (here todo : List Name) :
    follow tree₁ through links here todo = follow tree₂ through links here todo := by
  -- a link is paid for with a smaller number of links, all else with a shorter way to go
  induction links generalizing here todo with
  | zero =>
    induction todo generalizing here with
    | nil => simp only [follow]
    | cons n rest ih =>
      rw [follow_cons, follow_cons, h here, h (here ++ [n])]
      simp only [ih]
  | succ links ihlinks =>
    induction todo generalizing here with
    | nil => simp only [follow]
    | cons n rest ih =>
      rw [follow_cons, follow_cons, h here, h (here ++ [n])]
      simp only [ih, ihlinks]

lemma entry_eq_ok {host : Host} {p : Path} {through : Bool} {e : Entry} :
    host.entry p through = .ok e ↔
      ∃ l, host.locate p through = .ok l ∧ host.tree.at? l = some e := by
  unfold entry
  cases host.locate p through with
  | error err => simp [bind, Except.bind]
  | ok l => cases hat : host.tree.at? l <;> simp [bind, Except.bind, hat]

lemma bytes_ne_nil_of_locate {host : Host} {p : Path} {through : Bool} {l : List Name}
    (h : host.locate p through = .ok l) : p.bytes ≠ [] := by
  intro hempty
  simp [locate, hempty] at h

lemma short_of_locate {host : Host} {p : Path} {through : Bool} {l : List Name}
    (h : host.locate p through = .ok l) : p.bytes.length < Path.limit := by
  by_contra hlong
  have hlimit := Nat.le_of_not_lt hlong
  unfold locate at h
  split_ifs at h

variable {host : Host} {dir : Path} {top : Entry}

lemma filesBeneath_directory {m : Name} {es : List Entry}
    (hdir : host.entry dir true = .ok (.directory m es)) :
    host.filesBeneath dir = Entry.inNameOrder (Entry.filesAmong dir es) := by
  obtain ⟨l, hl, hat⟩ := entry_eq_ok.1 hdir
  rcases follow_without ((locate_eq_follow hl host true).symm.trans hl) with
    hsame | ⟨l', n, target, hlink, hat'⟩
  · rw [← locate_eq_follow hl host false] at hsame
    have hentry := entry_eq_ok.2 ⟨l, hsame, hat⟩
    simp only [filesBeneath, hentry]
  · rw [← locate_eq_follow hl host false] at hlink
    have hentry := entry_eq_ok.2 ⟨l', hlink, hat'⟩
    simp only [filesBeneath, hentry, hdir]

lemma filesBeneath_eq (hdir : host.entry dir true = .ok top) (htop : top.isDirectory = true) :
    host.filesBeneath dir = top.filesAt dir := by
  obtain ⟨l, hl, -⟩ := entry_eq_ok.1 hdir
  cases top with
  | file | link => cases htop
  | directory m es =>
    rw [filesBeneath_directory hdir, Entry.filesAt, if_neg (Nat.not_le_of_lt (short_of_locate hl))]

lemma filesBeneath_reordered (hwell : host.tree.WellFormed)
    (hdir : host.entry dir true = .ok top) (htop : top.isDirectory = true) {tree : Entry}
    (h : host.tree.Reordered tree) :
    ({ host with tree := tree } : Host).filesBeneath dir = host.filesBeneath dir := by
  have hsame := h.sameContent hwell
  obtain ⟨l, hl, hat⟩ := entry_eq_ok.1 hdir
  cases top with
  | file | link => cases htop
  | directory m es =>
    obtain ⟨ds, hds⟩ := hsame.at?_directory hat
    have hl' : ({ host with tree := tree } : Host).locate dir true = .ok l := by
      rw [locate_eq_follow hl, ← follow_sameContent hsame, ← hl, locate_eq_follow hl host]
    rw [filesBeneath_eq hdir rfl, filesBeneath_eq (entry_eq_ok.2 ⟨l, hl', hds⟩) rfl]
    exact ((hsame.of_at hat hds).filesAt_eq (hwell.of_at hat) ((h.wellFormed hwell).of_at hds)
      (bytes_ne_nil_of_locate hl)).symm

end Host

namespace LinterConfig

variable {c : LinterConfig} {host : Host} {dir p : Path} {top : Entry} {l : List Name}

lemma mem_filesBeneath (hwell : host.tree.WellFormed) (hdir : host.entry dir true = .ok top)
    (htop : top.isDirectory = true) :
    p ∈ c.filesBeneath host dir ↔
      ∃ l, top.HoldsFile l ∧ Entry.Opens dir l ∧ p = dir.descend l ∧ c.accepts p = true := by
  obtain ⟨here, hhere, hat⟩ := Host.entry_eq_ok.1 hdir
  rw [filesBeneath, Host.filesBeneath_eq hdir htop, List.mem_filter,
    Entry.mem_filesAt (hwell.of_at hat) (Host.bytes_ne_nil_of_locate hhere), ← exists_and_right]
  simp only [and_assoc]

lemma components_of_holdsFile (hwell : host.tree.WellFormed)
    (hdir : host.entry dir true = .ok top) (hl : top.HoldsFile l) :
    (dir.descend l).components = dir.components ++ l.map .name := by
  obtain ⟨here, hhere, hat⟩ := Host.entry_eq_ok.1 hdir
  exact Path.components_descend (Host.bytes_ne_nil_of_locate hhere) (hl.proper (hwell.of_at hat))

lemma descend_mem_filesBeneath (hwell : host.tree.WellFormed)
    (hdir : host.entry dir true = .ok top) (htop : top.isDirectory = true)
    (hl : top.HoldsFile l) :
    dir.descend l ∈ c.filesBeneath host dir ↔
      Entry.Opens dir l ∧ c.accepts (dir.descend l) = true := by
  rw [mem_filesBeneath hwell hdir htop]
  constructor
  · rintro ⟨l', hl', hopen, hsame, haccepted⟩
    have hnames : l.map Component.name = l'.map Component.name := by
      have heq := congrArg Path.components hsame
      rw [components_of_holdsFile hwell hdir hl, components_of_holdsFile hwell hdir hl'] at heq
      exact List.append_cancel_left heq
    have hinj : Function.Injective Component.name := fun _ _ h => Component.name.inj h
    obtain rfl : l = l' := hinj.list_map hnames
    exact ⟨hopen, haccepted⟩
  · rintro ⟨hopen, haccepted⟩
    exact ⟨l, hl, hopen, rfl, haccepted⟩

end LinterConfig

/-- **Walking a directory** gives each file once and in order. It gives the files of the linter whose
directories can be opened, and so all there are just when none stands in a directory whose path is
too long. -/
theorem LinterConfig.filesBeneath_exact (c : LinterConfig) {host : Host} {dir : Path} {top : Entry}
    (hwell : host.tree.WellFormed) (hdir : host.entry dir true = .ok top)
    (htop : top.isDirectory = true) :
    (∀ p, p ∈ c.filesBeneath host dir ↔
        ∃ l, top.HoldsFile l ∧ Entry.Opens dir l ∧ p = dir.descend l ∧ c.accepts p = true) ∧
      ((∀ p, p ∈ c.filesBeneath host dir ↔
          ∃ l, top.HoldsFile l ∧ p = dir.descend l ∧ c.accepts p = true) ↔
        ∀ l, top.HoldsFile l → c.accepts (dir.descend l) = true → Entry.Opens dir l) ∧
      (∀ l, top.HoldsFile l → (dir.descend l).components = dir.components ++ l.map .name) ∧
      (c.filesBeneath host dir).Nodup ∧
      (c.filesBeneath host dir).Pairwise (fun p q => dir.namesBelow p < dir.namesBelow q) ∧
      ∀ tree, host.tree.Reordered tree →
        c.filesBeneath { host with tree := tree } dir = c.filesBeneath host dir := by
  obtain ⟨here, hhere, hat⟩ := Host.entry_eq_ok.1 hdir
  have hbytes := Host.bytes_ne_nil_of_locate hhere
  have hbelow : top.WellFormed := hwell.of_at hat
  have hfiles := Host.filesBeneath_eq hdir htop
  refine ⟨fun p => mem_filesBeneath hwell hdir htop, ⟨fun hall l hl haccepted => ?_,
    fun hopens p => ?_⟩, fun l => components_of_holdsFile hwell hdir, ?_, ?_, fun tree htree => ?_⟩
  · have hmem := (hall _).2 ⟨l, hl, rfl, haccepted⟩
    exact ((descend_mem_filesBeneath hwell hdir htop hl).1 hmem).1
  · rw [mem_filesBeneath hwell hdir htop]
    constructor
    · rintro ⟨l, hl, -, rfl, haccepted⟩
      exact ⟨l, hl, rfl, haccepted⟩
    · rintro ⟨l, hl, rfl, haccepted⟩
      exact ⟨l, hl, hopens l hl haccepted, rfl, haccepted⟩
  · rw [filesBeneath, hfiles]
    exact (Entry.nodup_filesAt hbelow hbytes).filter _
  · rw [filesBeneath, hfiles]
    exact (Entry.pairwise_filesAt hbelow hbytes).filter _
  · rw [filesBeneath, filesBeneath, Host.filesBeneath_reordered hwell hdir htop htree]

/-- Entries of a directory, two of which are links that a walk could get lost in. -/
def tangledEntries : List Entry :=
  [.file "a.js".toList [], .link "b.js".toList (.ofString "a.js"),
    .directory "a".toList [.file "b.js".toList [], .link "up".toList (.ofString "..")],
    .file "a.php".toList []]

/-- A machine with such a directory at its top. -/
def tangledHost : Host := ⟨.directory [] tangledEntries, [], none, false, .ofString "/"⟩

lemma tangledHost_wellFormed : tangledHost.tree.WellFormed := by decide

theorem filesBeneath_tangled :
    let c := LinterConfig.eslintDefault (.ofString "/")
    c.filesBeneath tangledHost (.ofString "/") = [.ofString "/a/b.js", .ofString "/a.js"] ∧
      c.filesBeneath { tangledHost with tree := .directory [] tangledEntries.reverse }
        (.ofString "/") = [.ofString "/a/b.js", .ofString "/a.js"] := by
  intro c
  have hdir : tangledHost.entry (.ofString "/") true = .ok tangledHost.tree := by cbv
  have hfiles : c.filesBeneath tangledHost (.ofString "/") =
      [.ofString "/a/b.js", .ofString "/a.js"] := by cbv
  have hexact := c.filesBeneath_exact tangledHost_wellFormed hdir rfl
  have hreordered := Entry.Reordered.here [] (List.reverse_perm tangledEntries).symm
  exact ⟨hfiles, (hexact.2.2.2.2.2 _ hreordered).trans hfiles⟩

/-- The top directory, with slashes for its name. -/
def slashes (k : Nat) : Path := ⟨List.replicate k slash⟩

lemma bytes_slashes_ne_nil {k : Nat} (hpos : 0 < k) : (slashes k).bytes ≠ [] := by
  simpa [slashes] using hpos.ne'

lemma length_slashes (k : Nat) : (slashes k).bytes.length = k := List.length_replicate

lemma entry_slashes {k : Nat} (hpos : 0 < k) (hk : k < Path.limit) :
    tangledHost.entry (slashes k) true = .ok tangledHost.tree := by
  have hsteps : (slashes k).steps = [] := by
    simp [Path.steps, Path.pieces, slashes, Text.splitAt_replicate]
  have hlocate : tangledHost.locate (slashes k) true = .ok [] := by
    have hnul : 0 ∉ (slashes k).bytes := fun h => by cases List.eq_of_mem_replicate h
    have hhere : tangledHost.workingDirectory = [] := rfl
    rw [Host.locate, if_neg hnul, if_neg (bytes_slashes_ne_nil hpos), length_slashes,
      if_neg (Nat.not_le_of_lt hk), hsteps, hhere, ite_self, Host.follow]
  exact Host.entry_eq_ok.2 ⟨[], hlocate, rfl⟩

lemma not_opens_slashes {k : Nat} {n m : Name} (hpos : 0 < k) (hn : n.IsProper)
    (hk : Path.limit ≤ k + n.length) : ¬ Entry.Opens (slashes k) [n, m] := by
  intro hopens
  have hshort : ((slashes k).child n).bytes.length < Path.limit := hopens (by simp)
  have hchild := Path.le_length_child (bytes_slashes_ne_nil hpos) hn
  rw [length_slashes] at hchild
  omega

/-- The directory `a` cannot be opened there, and the script in it is passed over. -/
theorem filesBeneath_overlong :
    let c := LinterConfig.eslintDefault (.ofString "/")
    let l := ["a".toList, "b.js".toList]
    tangledHost.tree.WellFormed ∧ tangledHost.entry (slashes 4095) true = .ok tangledHost.tree ∧
      tangledHost.tree.HoldsFile l ∧ c.accepts ((slashes 4095).descend l) = true ∧
      (slashes 4095).descend l ∉ c.filesBeneath tangledHost (slashes 4095) := by
  intro c l
  have hentry := entry_slashes (k := 4095) (by decide) (by decide)
  have hholds : tangledHost.tree.HoldsFile l := ⟨"b.js".toList, [], by cbv⟩
  have hlong : ¬ Entry.Opens (slashes 4095) l := not_opens_slashes (by decide) (by decide) (by decide)
  have haccepted : c.accepts ((slashes 4095).descend l) = true := by
    have hcomponents := LinterConfig.components_of_holdsFile tangledHost_wellFormed hentry hholds
    have hextension : ((slashes 4095).descend l).extension? = some "js".toList := by
      rw [Path.extension?, Path.fileName?, hcomponents, List.getLast?_append_of_ne_nil _ (by simp [l])]
      decide
    rw [LinterConfig.accepts, hextension]
    decide
  rw [LinterConfig.descend_mem_filesBeneath tangledHost_wellFormed hentry rfl hholds]
  exact ⟨tangledHost_wellFormed, hentry, hholds, haccepted, fun h => hlong h.1⟩

end SiteLint
