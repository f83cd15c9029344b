import SiteLint.Proofs.PathSpelling

/-!
What a lookup passes through, and where it ends.

All that lies on the way to an entry is a directory, so whatever is found under a name is found in
a directory. A lookup that follows links does not end at one. Slashes too many change the text of a
path, and not where it leads, as long as the text is short enough to be looked up.
-/

namespace SiteLint

/-! ### Where a lookup ends -/

lemma Entry.directory_of_at?_append {tree e : Entry} {l ms : List Name}
    (h : tree.at? (l ++ ms) = some e) (hms : ms ≠ []) :
    ∃ n es, tree.at? l = some (directory n es) := by
  induction l generalizing tree with
  | nil =>
    obtain ⟨m, ms, rfl⟩ := List.exists_cons_of_ne_nil hms
    cases tree with
    | file | link => cases h
    | directory n es => exact ⟨n, es, rfl⟩
  | cons m l ih =>
    cases tree with
    | file | link => cases h
    | directory n es =>
      rw [List.cons_append, at?_cons] at h
      obtain ⟨d, hfind, hd⟩ := Option.bind_eq_some_iff.1 h
      rw [at?_cons, hfind]
      exact ih hd

namespace Host

lemma not_link_of_follow {tree : Entry} {links : Nat} {here todo l : List Name}
    (hhere : ∀ n target, tree.at? here ≠ some (.link n target))
    (h : follow tree true links here todo = .ok l) :
    ∀ n target, tree.at? l ≠ some (.link n target) := by
  fun_induction follow tree true links here todo with
  | case1 links here =>
    obtain rfl : here = l := by simpa using h
    exact hhere
  | case2 links here rest m es hdir ih => exact ih hhere h
  | case3 links here rest m es hdir hdot ih =>
    refine ih (fun n target hlink => ?_) h
    rcases List.eq_nil_or_concat' here with rfl | ⟨above, last, rfl⟩
    · exact hhere n target hlink
    · rw [List.dropLast_concat] at hlink
      obtain ⟨k, ds, habove⟩ := Entry.directory_of_at?_append hdir (List.cons_ne_nil last [])
      rw [hlink] at habove
      cases habove
  | case4 | case5 | case7 | case10 | case11 => cases h
  | case6 links here n rest m es hdir hdot hup hname k target hfind hlast => simp at hlast
  | case8 here n rest m es hdir hdot hup hname k target hfind hlast links ih =>
    refine ih (fun j other hlink => ?_) h
    split at hlink
    · -- an absolute target starts at the top, which holds the directory that was reached
      have htop : tree = .link j other := by simpa [Entry.at?] using hlink
      rw [htop] at hdir
      cases here <;> cases hdir
    · exact hhere j other hlink
  | case9 links here n rest m es hdir hdot hup hname e hlink hfind ih =>
    refine ih (fun k target hat => ?_) h
    rw [← Entry.find?_eq_at? hdir, hfind] at hat
    exact hlink k target (Option.some.inj hat)

lemma not_link_of_entry {host : Host} {p : Path} {e : Entry} (hsteps : p.steps ≠ [])
    (h : host.entry p true = .ok e) : ∀ n target, e ≠ .link n target := by
  rintro n target rfl
  obtain ⟨l, hl, hat⟩ := entry_eq_ok.1 h
  have hfollow := (locate_eq_follow hl host true).symm.trans hl
  obtain ⟨m, rest, hm⟩ := List.exists_cons_of_ne_nil hsteps
  have hstart := hfollow
  rw [hm, follow] at hstart
  refine not_link_of_follow (fun k other hlink => ?_) hfollow n target hat
  rw [hlink] at hstart
  cases hstart

/-! ### Directories and what is in them -/

variable {host : Host} {p q : Path} {n : Name}

lemma locate_eq_ok_iff {through : Bool} {l : List Name} :
    host.locate p through = .ok l ↔ p.Admissible ∧
      follow host.tree through linkLimit (if p.isAbsolute then [] else host.workingDirectory)
        p.steps = .ok l := by
  unfold locate
  split
  · rename_i hnul
    exact ⟨nofun, fun h => absurd hnul h.1.noNul⟩
  · split
    · rename_i hempty
      exact ⟨nofun, fun h => absurd hempty h.1.nonempty⟩
    · split
      · rename_i hlong
        exact ⟨nofun, fun h => absurd h.1.short (Nat.not_lt_of_le hlong)⟩
      · rename_i hnul hempty hlong
        exact ⟨fun h => ⟨⟨hnul, hempty, Nat.lt_of_not_le hlong⟩, h⟩, fun h => h.2⟩

lemma isOk_entry_without {e : Entry} (h : host.entry p true = .ok e) :
    (host.entry p false).isOk = true := by
  obtain ⟨l, hl, hat⟩ := entry_eq_ok.1 h
  rcases follow_without ((locate_eq_follow hl host true).symm.trans hl) with
    hsame | ⟨l', n, target, hlink, hat'⟩
  · rw [← locate_eq_follow hl host false] at hsame
    rw [entry_eq_ok.2 ⟨l, hsame, hat⟩]
    rfl
  · rw [← locate_eq_follow hl host false] at hlink
    rw [entry_eq_ok.2 ⟨l', hlink, hat'⟩]
    rfl

lemma follow_here {tree : Entry} {through : Bool} {links : Nat} {here : List Name} {m : Name}
    {es : List Entry} (h : tree.at? here = some (.directory m es)) :
    follow tree through links here [[dot]] = .ok here := by
  simp [follow, h]

lemma entry_eq_directory_iff {m : Name} {es : List Entry} :
    host.entry p true = .ok (.directory m es) ↔ p.Admissible ∧
      ∃ l, follow host.tree true linkLimit (if p.isAbsolute then [] else host.workingDirectory)
        p.solidPieces = .ok l ∧ host.tree.at? l = some (.directory m es) := by
  simp only [entry_eq_ok, locate_eq_ok_iff, and_assoc, exists_and_left]
  refine and_congr_right fun _ => exists_congr fun l => and_congr_left fun hat => ?_
  rcases p.steps_eq with hsteps | hsteps
  · rw [hsteps]
  · rw [hsteps]
    constructor
    · intro h
      obtain ⟨links, dir, hrest⟩ := follow_append h
      have hend := hrest [[dot]]
      rw [h, follow_cons] at hend
      split at hend
      · have hdir : l = dir := by simpa [follow] using hend
        rw [← List.append_nil p.solidPieces, hrest [], follow, hdir]
      · cases hend
      · cases hend
    · intro h
      rw [← List.append_nil p.solidPieces] at h
      obtain ⟨links, dir, hrest⟩ := follow_append h
      rw [hrest, follow] at h
      rw [hrest, Except.ok.inj h, follow_here hat]

lemma entry_of_same_pieces {m : Name} {es : List Entry}
    (h : host.entry p true = .ok (.directory m es)) (habsolute : p.isAbsolute = q.isAbsolute)
    (hpieces : p.solidPieces = q.solidPieces) (hq : q.Admissible) :
    host.entry q true = .ok (.directory m es) := by
  rw [entry_eq_directory_iff] at h ⊢
  rw [← habsolute, ← hpieces]
  exact ⟨hq, h.2⟩

lemma isAbsolute_child_piece (hn : slash ∉ n) : (p.child n).isAbsolute = p.isAbsolute := by
  have hrelative := Path.isAbsolute_piece hn
  simp [Path.child, hrelative]

lemma sublist_child (hp : p.bytes ≠ []) (hn : slash ∉ n) :
    p.bytes.Sublist (p.child n).bytes := by
  obtain ⟨bs, hchild, hbs⟩ := Path.bytes_child_eq hp hn
  rw [hchild]
  rcases hbs with hbs | hbs
  · rw [hbs]
    exact (List.Sublist.refl bs).append (List.singleton_sublist.2 List.mem_cons_self)
  · rw [hbs]
    exact List.sublist_append_left _ _

lemma exists_directory_of_child (hp : p.bytes ≠ []) (hn : slash ∉ n) (hne : n ≠ [])
    {l : List Name} (h : host.locate (p.child n) true = .ok l) :
    ∃ m es links dir, host.entry p true = .ok (.directory m es) ∧
      host.tree.at? dir = some (.directory m es) ∧ follow host.tree true links dir [n] = .ok l := by
  obtain ⟨hadmissible, hfollow⟩ := locate_eq_ok_iff.1 h
  rw [isAbsolute_child_piece hn, Path.steps_child_piece hp hn hne] at hfollow
  obtain ⟨links, dir, hrest⟩ := follow_append hfollow
  rw [hrest] at hfollow
  cases hat : host.tree.at? dir with
  | none => simp [follow, hat] at hfollow
  | some e =>
    cases e with
    | file | link => simp [follow, hat] at hfollow
    | directory m es =>
      have hdir := hrest []
      rw [List.append_nil, follow] at hdir
      have hentry : host.entry p true = .ok (.directory m es) :=
        entry_eq_directory_iff.2 ⟨hadmissible.of_sublist (sublist_child hp hn) hp, dir, hdir, hat⟩
      exact ⟨m, es, links, dir, hentry, hat, hfollow⟩

lemma isDirectory_of_child (hp : p.bytes ≠ []) (hn : slash ∉ n)
    (h : host.isDirectory (p.child n) = true) : host.isDirectory p = true := by
  obtain ⟨e, he, hdir⟩ := isDirectory_iff.1 h
  by_cases hne : n = []
  · -- only a slash is added
    cases e with
    | file | link => cases hdir
    | directory m es =>
      have hpieces : (p.child n).solidPieces = p.solidPieces := by
        rw [Path.solidPieces_child_piece hp hn, hne]
        simp
      have hadmissible := (entry_eq_directory_iff.1 he).1.of_sublist (sublist_child hp hn) hp
      have hentry := entry_of_same_pieces he (isAbsolute_child_piece hn) hpieces hadmissible
      exact isDirectory_iff.2 ⟨_, hentry, rfl⟩
  · obtain ⟨l, hl, -⟩ := entry_eq_ok.1 he
    obtain ⟨m, es, -, -, hentry, -⟩ := exists_directory_of_child hp hn hne hl
    exact isDirectory_iff.2 ⟨_, hentry, rfl⟩

lemma isDirectory_of_descend {ns : List Name} (hp : p.isAbsolute = true)
    (hns : ∀ n ∈ ns, slash ∉ n) (h : host.isDirectory (p.descend ns) = true) :
    host.isDirectory p = true := by
  induction ns generalizing p with
  | nil => exact h
  | cons n ns ih =>
    rw [List.forall_mem_cons] at hns
    exact isDirectory_of_child (Path.bytes_ne_nil_of_isAbsolute hp) hns.1
      (ih (Path.isAbsolute_child hp n) hns.2 h)

lemma isFile_iff_entry :
    host.isFile p = true ↔ ∃ n bytes, host.entry p true = .ok (.file n bytes) := by
  unfold isFile
  cases host.entry p true with
  | error => simp
  | ok e => cases e <;> simp [Entry.isFile]

lemma isFile_child_dots (hp : p.bytes ≠ []) (hn : n = [dot] ∨ n = [dot, dot]) :
    host.isFile (p.child n) = false := by
  have hpiece : slash ∉ n ∧ n ≠ [] := by rcases hn with rfl | rfl <;> decide
  rw [← Bool.not_eq_true, isFile_iff_entry]
  rintro ⟨k, bytes, hentry⟩
  obtain ⟨l, hl, hat⟩ := entry_eq_ok.1 hentry
  obtain ⟨m, es, links, dir, -, hdir, hfollow⟩ :=
    exists_directory_of_child hp hpiece.1 hpiece.2 hl
  have hend : ∃ j ds, host.tree.at? l = some (.directory j ds) := by
    rcases hn with rfl | rfl
    · obtain rfl : dir = l := by simpa [follow, hdir] using hfollow
      exact ⟨m, es, hdir⟩
    · obtain rfl : dir.dropLast = l := by simpa [follow, hdir] using hfollow
      rcases List.eq_nil_or_concat' dir with rfl | ⟨above, last, rfl⟩
      · exact ⟨m, es, hdir⟩
      · rw [List.dropLast_concat]
        exact Entry.directory_of_at?_append hdir (List.cons_ne_nil last [])
  obtain ⟨j, ds, hend⟩ := hend
  rw [hat] at hend
  cases hend

/-! ### The names of a directory -/

lemma mem_listing {dir : Path} {e : Entry} :
    e ∈ host.listing dir ↔ ∃ top, host.entry dir true = .ok top ∧ e ∈ top.entries := by
  unfold listing
  cases host.entry dir true <;> simp

lemma wellFormed_of_mem_listing (hwell : host.tree.WellFormed) {dir : Path} {e : Entry}
    (he : e ∈ host.listing dir) : e.WellFormed := by
  obtain ⟨top, htop, hmem⟩ := mem_listing.1 he
  obtain ⟨l, -, hat⟩ := entry_eq_ok.1 htop
  have hbelow := hwell.of_at hat
  cases hbelow with
  | file | link => cases hmem
  | directory _ _ _ _ inside => exact inside e hmem

lemma nodup_listing (hwell : host.tree.WellFormed) (dir : Path) :
    ((host.listing dir).map Entry.name).Nodup := by
  unfold listing
  split
  · rename_i top htop
    obtain ⟨l, -, hat⟩ := entry_eq_ok.1 htop
    refine ((List.mergeSort_perm _ _).map _).nodup_iff.2 ?_
    have htree := hwell.of_at hat
    cases htree with
    | file | link => exact List.nodup_nil
    | directory _ _ distinct => exact distinct
  · exact List.nodup_nil

lemma pairwise_listing (hwell : host.tree.WellFormed) (dir : Path) :
    (host.listing dir).Pairwise fun a b => a.name < b.name := by
  have hdistinct := nodup_listing hwell dir
  unfold listing at hdistinct ⊢
  split at hdistinct
  · exact Name.pairwise_lt (((List.mergeSort_perm _ _).map _).nodup_iff.1 hdistinct)
  · exact .nil

lemma exists_listed_of_child (hp : p.bytes ≠ []) (hn : n.IsProper) {e : Entry}
    (h : host.entry (p.child n) true = .ok e) : ∃ d ∈ host.listing p, d.name = n := by
  obtain ⟨l, hl, -⟩ := entry_eq_ok.1 h
  obtain ⟨m, es, links, dir, hentry, hat, hfollow⟩ :=
    exists_directory_of_child hp hn.noSlash hn.nonempty hl
  cases hfind : Entry.find? n es with
  | none =>
    simp only [follow, hat, hn.notHere, hn.notUp, hfind, if_false] at hfollow
    split at hfollow <;> cases hfollow
  | some d =>
    have hname : d.name = n := by simpa using List.find?_some hfind
    exact ⟨d, mem_listing.2 ⟨_, hentry, List.mem_of_find?_eq_some hfind⟩, hname⟩

lemma find?_of_mem_listing (hwell : host.tree.WellFormed) {e : Entry} {m : Name}
    {es : List Entry} (h : host.entry p true = .ok (.directory m es)) (he : e ∈ host.listing p) :
    Entry.find? e.name es = some e := by
  obtain ⟨top, htop, hmem⟩ := mem_listing.1 he
  obtain rfl : .directory m es = top := Except.ok.inj (h.symm.trans htop)
  obtain ⟨l, -, hat⟩ := entry_eq_ok.1 h
  have hbelow := hwell.of_at hat
  cases hbelow with
  | directory _ _ distinct => exact (Entry.find?_eq_some_iff distinct).2 ⟨hmem, rfl⟩

lemma entry_of_listed (hwell : host.tree.WellFormed) (hp : p.bytes ≠ []) {e d : Entry}
    (he : e ∈ host.listing p) (hproper : e.name.IsProper) (hlink : ∀ n target, e ≠ .link n target)
    (h : host.entry (p.child e.name) true = .ok d) : d = e := by
  obtain ⟨l, hl, hat⟩ := entry_eq_ok.1 h
  obtain ⟨m, es, links, dir, hentry, hdir, hfollow⟩ :=
    exists_directory_of_child hp hproper.noSlash hproper.nonempty hl
  have hfind := find?_of_mem_listing hwell hentry he
  have hthere : host.tree.at? (dir ++ [e.name]) = some e := by
    rw [← Entry.find?_eq_at? hdir, hfind]
  obtain rfl : dir ++ [e.name] = l := by
    rw [follow_cons, hdir, hthere] at hfollow
    simp only [Option.map_some, Entry.bare, hproper.notHere, hproper.notUp, if_false] at hfollow
    split at hfollow
    · cases hfollow
    · cases e with
      | link n target => exact absurd rfl (hlink n target)
      | file | directory => simpa [follow, Entry.bare] using hfollow
  exact Option.some.inj (hat.symm.trans hthere)

end Host

end SiteLint
