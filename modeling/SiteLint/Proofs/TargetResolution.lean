import SiteLint.Proofs.TargetPaths

/-!
What the configured entries and a name on the command line are resolved to.

A pattern and a single file are only taken for files that are there. The walk through a directory
takes its files from the entries it reads and asks no more, so a path can come out of it that is
too long to be looked up. Apart from the length of the text, it leads to the file all the same.
-/

namespace SiteLint

/-! ### Names that can be stored -/

/-- A name that the machine can store. -/
structure Name.Fits (n : Name) : Prop where
  noNul : 0 ∉ n
  short : n.length ≤ Host.nameLimit

instance (n : Name) : Decidable n.Fits :=
  decidable_of_iff (0 ∉ n ∧ n.length ≤ Host.nameLimit)
    ⟨fun ⟨h₁, h₂⟩ => ⟨h₁, h₂⟩, fun ⟨h₁, h₂⟩ => ⟨h₁, h₂⟩⟩

namespace Entry

/-- All names in the tree can be stored. -/
inductive NamesFit : Entry → Prop
  | file (n : Name) (bytes : List UInt8) : NamesFit (.file n bytes)
  | link (n : Name) (target : Path) : NamesFit (.link n target)
  | directory (n : Name) (es : List Entry) (fit : ∀ e ∈ es, e.name.Fits)
      (inside : ∀ e ∈ es, NamesFit e) : NamesFit (.directory n es)

lemma NamesFit.of_at {tree e : Entry} {l : List Name} (h : tree.NamesFit)
    (he : tree.at? l = some e) : e.NamesFit := by
  refine at?_hereditary (fun n es hes => ?_) h he
  cases hes with
  | directory _ _ _ inside => exact inside

lemma NamesFit.fits_of_at {tree e : Entry} {l : List Name} (h : tree.NamesFit)
    (he : tree.at? l = some e) : ∀ n ∈ l, n.Fits := by
  induction l generalizing tree with
  | nil => simp
  | cons n l ih =>
    cases h with
    | file | link => cases he
    | directory m es fit inside =>
      rw [at?_cons] at he
      obtain ⟨d, hfind, hd⟩ := Option.bind_eq_some_iff.1 he
      have hmem := List.mem_of_find?_eq_some hfind
      have hname : d.name = n := by simpa using List.find?_some hfind
      rw [List.forall_mem_cons]
      exact ⟨hname ▸ fit d hmem, ih (inside d hmem) hd⟩

end Entry

/-! ### The text of a path below a directory -/

namespace Path

/-- What stands between the slashes of a path, as far as there is anything. -/
def solidPieces (p : Path) : List Name := p.pieces.filter (· ≠ [])

lemma steps_eq (p : Path) : p.steps = p.solidPieces ∨ p.steps = p.solidPieces ++ [[dot]] := by
  unfold steps
  dsimp only
  split
  · exact .inr rfl
  · exact .inl rfl

lemma solidPieces_child_piece {p : Path} {n : Name} (hp : p.bytes ≠ []) (hn : slash ∉ n) :
    (p.child n).solidPieces = p.solidPieces ++ [n].filter (· ≠ []) := by
  obtain ⟨cs, hchild, hcs⟩ := bytes_child_eq hp hn
  have hpieces : (p.child n).pieces = Text.splitAt slash cs ++ [n] := by
    rw [pieces, hchild, Text.splitAt_append_sep, Text.splitAt_of_notMem hn]
  have hsolid : p.solidPieces = (Text.splitAt slash cs).filter (· ≠ []) := by
    rcases hcs with hcs | hcs
    · simp [solidPieces, pieces, hcs, Text.splitAt_append_sep, Text.splitAt]
    · rw [solidPieces, pieces, hcs]
  rw [hsolid, solidPieces, hpieces, List.filter_append]

lemma solidPieces_child {p : Path} {n : Name} (hp : p.bytes ≠ []) (hn : n.IsProper) :
    (p.child n).solidPieces = p.solidPieces ++ [n] := by
  rw [solidPieces_child_piece hp hn.noSlash]
  simp [hn.nonempty]

lemma steps_child_piece {p : Path} {n : Name} (hp : p.bytes ≠ []) (hn : slash ∉ n)
    (hne : n ≠ []) : (p.child n).steps = p.solidPieces ++ [n] := by
  obtain ⟨cs, hchild, -⟩ := bytes_child_eq hp hn
  obtain ⟨a, as, ha⟩ := List.exists_cons_of_ne_nil hne
  have hlast : (p.child n).bytes.getLast? ≠ some slash := by
    intro hslash
    rw [hchild, ha, List.getLast?_append_of_ne_nil _ (by simp), List.getLast?_cons_cons,
      ← ha] at hslash
    exact hn (List.mem_of_getLast? hslash)
  rw [steps]
  simp only [hlast, and_false, if_false]
  refine (solidPieces_child_piece hp hn).trans ?_
  simp [hne]

lemma steps_child {p : Path} {n : Name} (hp : p.bytes ≠ []) (hn : n.IsProper) :
    (p.child n).steps = p.solidPieces ++ [n] :=
  steps_child_piece hp hn.noSlash hn.nonempty

lemma solidPieces_descend {p : Path} {ns : List Name} (hp : p.bytes ≠ [])
    (hns : ∀ n ∈ ns, n.IsProper) : (p.descend ns).solidPieces = p.solidPieces ++ ns := by
  induction ns generalizing p with
  | nil => simp [descend]
  | cons n ns ih =>
    rw [List.forall_mem_cons] at hns
    have hrest := ih (bytes_child_ne_nil hp hns.1) hns.2
    rw [solidPieces_child hp hns.1] at hrest
    simpa [descend] using hrest

lemma solidPieces_append_slash (bs : List UInt8) :
    (⟨bs ++ [slash]⟩ : Path).solidPieces = (⟨bs⟩ : Path).solidPieces := by
  simp [solidPieces, pieces, Text.splitAt_append_sep, Text.splitAt]

lemma solidPieces_append_slashes (bs : List UInt8) (k : Nat) :
    (⟨bs ++ List.replicate k slash⟩ : Path).solidPieces = (⟨bs⟩ : Path).solidPieces := by
  induction k with
  | zero => simp
  | succ k ih => rw [List.replicate_succ', ← List.append_assoc, solidPieces_append_slash, ih]

lemma steps_descend {p : Path} {ns : List Name} (hp : p.bytes ≠ [])
    (hns : ∀ n ∈ ns, n.IsProper) (hne : ns ≠ []) :
    (p.descend ns).steps = p.solidPieces ++ ns := by
  obtain ⟨above, n, rfl⟩ : ∃ above n, ns = above ++ [n] :=
    ⟨ns.dropLast, ns.getLast hne, (List.dropLast_append_getLast hne).symm⟩
  have hn := hns n (by simp)
  have habove : ∀ m ∈ above, m.IsProper := fun m hm => hns m (by simp [hm])
  have hchild : p.descend (above ++ [n]) = (p.descend above).child n := by simp [descend]
  rw [hchild, steps_child (bytes_descend_ne_nil hp habove) hn, solidPieces_descend hp habove,
    List.append_assoc]

lemma isAbsolute_descend {p : Path} (hp : p.isAbsolute = true) (ns : List Name) :
    (p.descend ns).isAbsolute = true := by
  induction ns generalizing p with
  | nil => exact hp
  | cons n ns ih => exact ih (isAbsolute_child hp n)

lemma notMem_descend {p : Path} {ns : List Name} {b : UInt8} (hp : p.bytes ≠ []) (hb : b ≠ slash)
    (hpb : b ∉ p.bytes) (hns : ∀ n ∈ ns, n.IsProper) (hnb : ∀ n ∈ ns, b ∉ n) :
    b ∉ (p.descend ns).bytes := by
  induction ns generalizing p with
  | nil => exact hpb
  | cons n ns ih =>
    rw [List.forall_mem_cons] at hns hnb
    obtain ⟨bs, hchild, hbs⟩ := bytes_child_eq hp hns.1.noSlash
    have hbytes : b ∉ bs := by
      rcases hbs with hbs | rfl
      · exact fun h => hpb (hbs ▸ List.mem_append_left _ h)
      · exact hpb
    exact ih (bytes_child_ne_nil hp hns.1) (by simp [hchild, hbytes, hb, hnb.1]) hns.2 hnb.2

end Path

/-! ### Looking up a path below a directory -/

namespace Host

/-- Looked up name by name, whatever the length of its text, the path leads to a regular file. -/
def LeadsToFile (host : Host) (p : Path) : Prop :=
  ∃ l n bytes, follow host.tree true linkLimit (if p.isAbsolute then [] else host.workingDirectory)
    p.steps = .ok l ∧ host.tree.at? l = some (.file n bytes)

lemma isFile_iff {host : Host} {p : Path} :
    host.isFile p = true ↔ host.LeadsToFile p ∧ 0 ∉ p.bytes ∧ p.bytes ≠ [] ∧
      p.bytes.length < Path.limit := by
  have hfile : host.isFile p = true ↔
      ∃ l n bytes, host.locate p true = .ok l ∧ host.tree.at? l = some (.file n bytes) := by
    unfold isFile entry
    cases host.locate p true with
    | error e => simp [bind, Except.bind]
    | ok l =>
      cases hat : host.tree.at? l with
      | none => simp [bind, Except.bind, hat]
      | some e => cases e <;> simp [bind, Except.bind, hat, Entry.isFile]
  rw [hfile]
  unfold locate
  split
  · rename_i hnul
    simp [hnul]
  · split
    · rename_i hempty
      simp [hempty]
    · split
      · rename_i hlong
        simp [hlong]
      · rename_i hnul hempty hlong
        simp [LeadsToFile, hnul, hempty, Nat.lt_of_not_le hlong]

/-- A lookup of more names starts with the lookup of the first ones. -/
lemma follow_append {tree : Entry} {links : Nat} {here a b l : List Name}
    (h : follow tree true links here (a ++ b) = .ok l) :
    ∃ links' l', ∀ c, follow tree true links here (a ++ c) = follow tree true links' l' c := by
  fun_induction follow tree true links here a with
  | case1 links here => exact ⟨links, here, fun c => rfl⟩
  | case2 links here rest m es hhere ih =>
    have hstep (c : List Name) : follow tree true links here ([dot] :: rest ++ c) =
        follow tree true links here (rest ++ c) := by
      simp [follow, hhere]
    simp only [hstep] at h ⊢
    exact ih h
  | case3 links here rest m es hhere hdot ih =>
    have hstep (c : List Name) : follow tree true links here ([dot, dot] :: rest ++ c) =
        follow tree true links here.dropLast (rest ++ c) := by
      simp [follow, hhere]
    simp only [hstep] at h ⊢
    exact ih h
  | case4 links here n rest m es hhere hdot hup hname =>
    simp [follow, hhere, hdot, hup, hname] at h
  | case5 links here n rest m es hhere hdot hup hname hfind =>
    simp [follow, hhere, hdot, hup, hname, hfind] at h
  | case6 links here n rest m es hhere hdot hup hname k target hfind hlast => simp at hlast
  | case7 here n rest m es hhere hdot hup hname k target hfind =>
    simp [follow, hhere, hdot, hup, hname, hfind] at h
  | case8 here n rest m es hhere hdot hup hname k target hfind hlast links ih =>
    have hstep (c : List Name) : follow tree true (links + 1) here (n :: rest ++ c) =
        follow tree true links (if target.isAbsolute then [] else here)
          (target.steps ++ rest ++ c) := by
      rw [List.cons_append, follow, hhere]
      simp [hdot, hup, hname, hfind]
    simp only [hstep] at h ⊢
    exact ih h
  | case9 links here n rest m es hhere hdot hup hname e hlink hfind ih =>
    have hstep (c : List Name) : follow tree true links here (n :: rest ++ c) =
        follow tree true links (here ++ [n]) (rest ++ c) := by
      rw [List.cons_append, follow, hhere]
      simp [hdot, hup, hname, hfind]
    simp only [hstep] at h ⊢
    exact ih h
  | case10 links here n rest e hdirectory hhere =>
    rw [List.cons_append, follow_cons, hhere] at h
    cases e with
    | file | link => cases h
    | directory m es => exact absurd rfl (hdirectory m es)
  | case11 links here n rest hhere =>
    rw [List.cons_append, follow_cons, hhere] at h
    cases h

/-- A slash at the end of a path only asks for a directory: what a path leads to is looked up
further when names are put after it. -/
lemma follow_solidPieces {tree : Entry} {links : Nat} {here l : List Name} {p : Path}
    (h : follow tree true links here p.steps = .ok l) :
    ∃ links', ∀ c, follow tree true links here (p.solidPieces ++ c) =
      follow tree true links' l c := by
  rcases p.steps_eq with hsteps | hsteps
  · rw [hsteps, ← List.append_nil p.solidPieces] at h
    obtain ⟨links', l', hrest⟩ := follow_append h
    rw [hrest, follow] at h
    cases h
    exact ⟨links', hrest⟩
  · rw [hsteps] at h
    obtain ⟨links', l', hrest⟩ := follow_append h
    rw [hrest, follow_cons] at h
    split at h
    · obtain rfl : l' = l := by simpa [follow] using h
      exact ⟨links', hrest⟩
    · cases h
    · cases h

lemma follow_names {tree top e : Entry} {l names : List Name} (hat : tree.at? l = some top)
    (hbelow : top.at? names = some e) (hlink : ∀ n target, e ≠ .link n target)
    (hproper : ∀ n ∈ names, n.IsProper) (hfits : ∀ n ∈ names, n.Fits) (links : Nat) :
    follow tree true links l names = .ok (l ++ names) := by
  induction names generalizing l top with
  | nil => simp [follow]
  | cons n names ih =>
    rw [List.forall_mem_cons] at hproper hfits
    cases top with
    | file | link => cases hbelow
    | directory m es =>
      rw [Entry.at?_cons] at hbelow
      obtain ⟨d, hfind, hd⟩ := Option.bind_eq_some_iff.1 hbelow
      have hnext : tree.at? (l ++ [n]) = some d := by rw [← Entry.find?_eq_at? hat, hfind]
      have hrest := ih hnext hd hproper.2 hfits.2
      have hshort := Nat.not_lt_of_le hfits.1.short
      rw [follow, hat]
      cases d with
      | file | directory => simp [hproper.1.notHere, hproper.1.notUp, hshort, hfind, hrest]
      | link j target =>
        cases names with
        | nil => exact absurd (Option.some.inj hd).symm (hlink j target)
        | cons => cases hd

lemma leadsToFile_descend {host : Host} {dir : Path} {top : Entry} {names : List Name}
    (hwell : host.tree.WellFormed) (hfit : host.tree.NamesFit) (habsolute : dir.isAbsolute = true)
    (hdir : host.entry dir true = .ok top) (htop : top.isDirectory = true)
    (hfile : top.HoldsFile names) :
    host.LeadsToFile (dir.descend names) ∧ 0 ∉ (dir.descend names).bytes ∧
      (dir.descend names).bytes ≠ [] := by
  obtain ⟨l, hl, hat⟩ := entry_eq_ok.1 hdir
  have hbytes := bytes_ne_nil_of_locate hl
  obtain ⟨k, bytes, hheld⟩ := hfile
  have hproper := (hwell.of_at hat).proper_of_at hheld
  have hfits := (hfit.of_at hat).fits_of_at hheld
  have hne : names ≠ [] := by
    rintro rfl
    obtain rfl : top = .file k bytes := by simpa [Entry.at?] using hheld
    cases htop
  have hnul : 0 ∉ dir.bytes := by
    intro h
    simp [locate, h] at hl
  have hfollow := (locate_eq_follow hl host true).symm.trans hl
  rw [habsolute, if_pos rfl] at hfollow
  obtain ⟨links, hlinks⟩ := follow_solidPieces hfollow
  refine ⟨⟨l ++ names, k, bytes, ?_, ?_⟩, ?_, Path.bytes_descend_ne_nil hbytes hproper⟩
  · rw [Path.isAbsolute_descend habsolute, if_pos rfl, Path.steps_descend hbytes hproper hne,
      hlinks]
    exact follow_names hat hheld (fun _ _ => Entry.noConfusion) hproper hfits links
  · rw [Entry.at?_append hat, hheld]
  · exact Path.notMem_descend hbytes (by decide) hnul hproper fun n hn => (hfits n hn).noNul

lemma isDirectory_iff {host : Host} {p : Path} :
    host.isDirectory p = true ↔ ∃ e, host.entry p true = .ok e ∧ e.isDirectory = true := by
  unfold isDirectory
  cases host.entry p true <;> simp

end Host

/-! ### Resolution -/

/-- An absolute path that the linter handles and that leads to a regular file. Nothing but the
length of its text can keep the file from being opened. -/
structure LinterConfig.Handles (c : LinterConfig) (host : Host) (p : Path) : Prop where
  absolute : p.isAbsolute = true
  accepted : c.accepts p = true
  file : host.LeadsToFile p
  opens : host.isFile p = true ↔ p.bytes.length < Path.limit

namespace LinterConfig.Handles

variable {c : LinterConfig} {host : Host} {p : Path}

lemma of_isFile (habsolute : p.isAbsolute = true) (hfile : host.isFile p = true)
    (haccepted : c.accepts p = true) : c.Handles host p := by
  obtain ⟨hleads, -, -, hshort⟩ := Host.isFile_iff.1 hfile
  exact ⟨habsolute, haccepted, hleads, by simp [hfile, hshort]⟩

lemma of_filesBeneath {dir : Path} (hwell : host.tree.WellFormed) (hfit : host.tree.NamesFit)
    (habsolute : dir.isAbsolute = true) (hdir : host.isDirectory dir = true)
    (h : p ∈ c.filesBeneath host dir) : c.Handles host p := by
  obtain ⟨top, htop, hisdir⟩ := Host.isDirectory_iff.1 hdir
  obtain ⟨names, hheld, -, rfl, haccepted⟩ := (mem_filesBeneath hwell htop hisdir).1 h
  obtain ⟨hleads, hnul, hbytes⟩ :=
    Host.leadsToFile_descend hwell hfit habsolute htop hisdir hheld
  refine ⟨Path.isAbsolute_descend habsolute names, haccepted, hleads, ?_⟩
  rw [Host.isFile_iff]
  exact ⟨fun h => h.2.2.2, fun h => ⟨hleads, hnul, hbytes, h⟩⟩

end LinterConfig.Handles

namespace Target

variable {host : Host} {c : LinterConfig} {root : Path}

lemma handles_of_entryFiles (hwell : host.tree.WellFormed) (hfit : host.tree.NamesFit)
    (hroot : root.isAbsolute = true) {entry : String} {ps : List Path}
    (h : entryFiles? host c root entry = some ps) : ∀ p ∈ ps, c.Handles host p := by
  intro p hp
  have habsolute := isAbsolute_of_entryFiles hroot h p hp
  unfold entryFiles? at h
  split at h
  · obtain ⟨qs, -, rfl⟩ := Option.map_eq_some_iff.1 h
    obtain ⟨hfile, haccepted⟩ := Bool.and_eq_true_iff.1 (List.mem_filter.1 hp).2
    exact .of_isFile habsolute hfile haccepted
  · cases h
    have hjoin : (root.join (.ofString entry)).isAbsolute = true := by simp [hroot]
    split at hp
    · rename_i hdir
      exact .of_filesBeneath hwell hfit hjoin hdir hp
    · split at hp
      · rename_i htaken
        obtain rfl : p = _ := by simpa using hp
        obtain ⟨hfile, haccepted⟩ := Bool.and_eq_true_iff.1 htaken
        exact .of_isFile habsolute hfile haccepted
      · cases hp

lemma pairwise_distinct (ps : List Path) : (distinct ps).Pairwise fun p q => p.same q = false := by
  induction ps with
  | nil => exact .nil
  | cons p ps ih =>
    refine .cons (fun q hq => ?_) (ih.filter _)
    simpa using (List.mem_filter.1 hq).2

lemma requested_eq {linter : String} {scope : Scope} {name : String} {p : Path}
    (hp : root.join (.ofString name) = p) :
    requested host c root linter scope name =
      match host.entry p true with
      | .error _ => .error (.targetNotFound p)
      | .ok d =>
        if d.isDirectory then .ok (.directory p)
        else if c.accepts p then .ok (.file p)
        else .error (.unsupportedExtension p linter c.extensionList (scope = .explicit)) := by
  unfold requested Host.pathExists Host.isDirectory
  rw [hp]
  dsimp only
  cases host.entry p true with
  | error e => rfl
  | ok d => cases d.isDirectory <;> cases c.accepts p <;> rfl

/-- **Resolution of targets.** Without a name on the command line resolution cannot fail. What it
gives are files, each at one path, and they can be opened as far as their paths are short enough.
With a name, it fails just when nothing is there or when what is there is no directory and has no
extension of the linter's; else it gives the one target that is there. -/
theorem resolve_sound (host : Host) (c : LinterConfig) (root : Path) (linter : String)
    (scope : Scope) (hwell : host.tree.WellFormed) (hfit : host.tree.NamesFit)
    (hroot : root.isAbsolute = true) :
    (∃ ts, resolve host c root linter scope none = .ok ts ∧
      (∀ t ∈ ts, ∃ p, t = .file p ∧ c.Handles host p) ∧
      ts.Pairwise fun t u => t.path.same u.path = false) ∧
    ∀ name, let p := root.join (.ofString name)
      p.isAbsolute = true ∧
      (∀ e, resolve host c root linter scope (some name) = .error e ↔
        (e = .targetNotFound p ∧ ∀ d, host.entry p true ≠ .ok d) ∨
        (e = .unsupportedExtension p linter c.extensionList (scope = .explicit) ∧
          ∃ d, host.entry p true = .ok d ∧ d.isDirectory = false ∧ c.accepts p = false)) ∧
      ∀ ts, resolve host c root linter scope (some name) = .ok ts ↔
        ∃ d, host.entry p true = .ok d ∧
          ((d.isDirectory = true ∧ ts = [.directory p]) ∨
            (d.isDirectory = false ∧ c.accepts p = true ∧ ts = [.file p])) := by
  constructor
  · refine ⟨configured host c root, rfl, fun t ht => ?_, ?_⟩
    · obtain ⟨p, rfl, entry, -, ps, hps, hp⟩ := mem_configured ht
      exact ⟨p, rfl, handles_of_entryFiles hwell hfit hroot hps p hp⟩
    · exact List.pairwise_map.2 (pairwise_distinct _)
  · intro name p
    have hresolve : resolve host c root linter scope (some name) = _ :=
      congrArg (Except.map fun t => [t]) (requested_eq (p := p) rfl)
    refine ⟨by simp [p, hroot], fun e => ?_, fun ts => ?_⟩
    · rw [hresolve]
      cases host.entry p true with
      | error err => simp [Except.map, eq_comm (a := e)]
      | ok d => cases hd : d.isDirectory <;> cases c.accepts p <;>
          simp [Except.map, hd, eq_comm (a := e)]
    · rw [hresolve]
      cases host.entry p true with
      | error err => simp [Except.map]
      | ok d => cases hd : d.isDirectory <;> cases c.accepts p <;>
          simp [Except.map, hd, eq_comm (a := ts)]

/-- A machine with a script in a directory and a link to it. -/
def sourceHost : Host where
  tree := .directory [] [.directory "src".toList [.file "a.js".toList []],
    .link "b.js".toList (.ofString "src/a.js")]
  workingDirectory := []
  pluginHome := none
  noColor := false
  programDirectory := .ofString "/"

/-- ESLint set up for some entries. -/
def sourceConfig (targets : List String) : LinterConfig :=
  { LinterConfig.eslintDefault (.ofString "/") with targets := targets }

lemma sourceHost_wellFormed : sourceHost.tree.WellFormed := by decide

lemma sourceHost_namesFit : sourceHost.tree.NamesFit := by
  have hinner : Entry.NamesFit (.directory "src".toList [.file "a.js".toList []]) := by
    refine .directory _ _ (by decide) ?_
    simp only [List.forall_mem_cons]
    exact ⟨.file _ _, by simp⟩
  refine .directory _ _ (by decide) ?_
  simp only [List.forall_mem_cons]
  exact ⟨hinner, .link _ _, by simp⟩

theorem resolve_sound_of_source :
    let c := sourceConfig ["src", "b.js", "*/a.js"]
    let ts := [.file (.ofString "/src/a.js"), .file (.ofString "/b.js")]
    sourceHost.tree.WellFormed ∧ sourceHost.tree.NamesFit ∧
      (Path.ofString "/").isAbsolute = true ∧
      resolve sourceHost c (.ofString "/") "js" .explicit none = .ok ts ∧
      (∀ t ∈ ts, ∃ p, t = .file p ∧ c.Handles sourceHost p) ∧
      ts.Pairwise fun t u => t.path.same u.path = false := by
  intro c ts
  have hresolve : resolve sourceHost c (.ofString "/") "js" .explicit none = .ok ts := by cbv
  obtain ⟨⟨ts', hts', hfiles, hapart⟩, -⟩ :=
    resolve_sound sourceHost c (.ofString "/") "js" .explicit sourceHost_wellFormed
      sourceHost_namesFit rfl
  obtain rfl : ts' = ts := by
    rw [hresolve] at hts'
    exact (Except.ok.inj hts').symm
  exact ⟨sourceHost_wellFormed, sourceHost_namesFit, rfl, hresolve, hfiles, hapart⟩

/-- The directory with the script, with slashes behind its name. -/
def slashed (k : Nat) : Path := ⟨(Path.ofString "/src").bytes ++ List.replicate k slash⟩

/-- The configured entry that stands for it. -/
def slashedEntry (k : Nat) : String := String.ofList ("src".toList ++ List.replicate k '/')

lemma bytes_slashedEntry (k : Nat) :
    (Path.ofString (slashedEntry k)).bytes =
      (Path.ofString "src").bytes ++ List.replicate k slash := by
  rw [Path.ofString, slashedEntry, String.toList_ofList, Text.Utf8.encode_append,
    Text.Utf8.encode_replicate_slash]
  rfl

lemma bytes_slashed_ne_nil (k : Nat) : (slashed k).bytes ≠ [] :=
  List.append_ne_nil_of_left_ne_nil (by decide) _

lemma solidPieces_slashed (k : Nat) : (slashed k).solidPieces = ["src".toList] := by
  rw [slashed, Path.solidPieces_append_slashes]
  decide

lemma length_slashed (k : Nat) : (slashed k).bytes.length = 4 + k := by
  rw [slashed, List.length_append, List.length_replicate]
  rfl

lemma entry_slashed {k : Nat} (hk : 4 + k < Path.limit) :
    sourceHost.entry (slashed k) true =
      .ok (.directory "src".toList [.file "a.js".toList []]) := by
  have habsolute : (slashed k).isAbsolute = true := rfl
  have hnul : 0 ∉ (slashed k).bytes := by
    rw [slashed, List.mem_append, not_or, List.mem_replicate, not_and]
    exact ⟨by decide, fun _ => by decide⟩
  have hfollow : Host.follow sourceHost.tree true Host.linkLimit [] (slashed k).steps =
      .ok ["src".toList] := by
    rcases (slashed k).steps_eq with hsteps | hsteps
    · rw [hsteps, solidPieces_slashed]
      cbv
    · rw [hsteps, solidPieces_slashed]
      cbv
  have hlocate : sourceHost.locate (slashed k) true = .ok ["src".toList] := by
    rw [Host.locate, if_neg hnul, if_neg (bytes_slashed_ne_nil k), length_slashed,
      if_neg (Nat.not_le_of_lt hk), habsolute, if_pos rfl, hfollow]
  exact Host.entry_eq_ok.2 ⟨_, hlocate, by cbv⟩

lemma accepts_child_slashed (k : Nat) (targets : List String) :
    (sourceConfig targets).accepts ((slashed k).child "a.js".toList) = true := by
  have hextension : ((slashed k).child "a.js".toList).extension? = some "js".toList := by
    rw [Path.extension?, Path.fileName?,
      Path.components_child (bytes_slashed_ne_nil k) (by decide), List.getLast?_concat]
    decide
  have hlist : (sourceConfig targets).extensionList = ["js"] := rfl
  rw [LinterConfig.accepts, hextension, hlist]
  decide

lemma resolve_slashed {k : Nat} (hk : 4 + k < Path.limit) (linter : String) (scope : Scope) :
    resolve sourceHost (sourceConfig [slashedEntry k]) (.ofString "/") linter scope none =
      .ok [.file ((slashed k).child "a.js".toList)] := by
  have hjoin : (Path.ofString "/").join (.ofString (slashedEntry k)) = slashed k := by
    have hrelative : (Path.ofString (slashedEntry k)).isAbsolute = false := by
      rw [Path.isAbsolute, bytes_slashedEntry]
      rfl
    have hroot : (Path.ofString "/").bytes.getLast? = some slash := by decide
    rw [Path.join, hrelative, if_neg (by decide), if_pos (.inr hroot), bytes_slashedEntry]
    rfl
  have hwildcard : Glob.hasWildcard (slashedEntry k).toList = false := by
    simp [Glob.hasWildcard, slashedEntry, List.any_replicate]
  have hentry := entry_slashed hk
  have hdir : sourceHost.isDirectory (slashed k) = true :=
    Host.isDirectory_iff.2 ⟨_, hentry, rfl⟩
  have hbeneath : sourceHost.filesBeneath (slashed k) = [(slashed k).child "a.js".toList] := by
    rw [Host.filesBeneath_directory hentry]
    simp [Entry.filesAt, Entry.filesAmong, Entry.inNameOrder, Entry.name]
  have hfiles : entryFiles? sourceHost (sourceConfig [slashedEntry k]) (.ofString "/")
      (slashedEntry k) = some [(slashed k).child "a.js".toList] := by
    rw [entryFiles?, hwildcard]
    simpa [hjoin, hdir, LinterConfig.filesBeneath, hbeneath] using accepts_child_slashed k _
  have htargets : (sourceConfig [slashedEntry k]).targets = [slashedEntry k] := rfl
  simp [resolve, configured, htargets, hfiles, distinct]

/-- The path of the directory can be looked up, that of the file in it cannot. -/
theorem resolve_overlong :
    let p := (slashed 4091).child "a.js".toList
    sourceHost.tree.WellFormed ∧ sourceHost.tree.NamesFit ∧
      (Path.ofString "/").isAbsolute = true ∧
      resolve sourceHost (sourceConfig [slashedEntry 4091]) (.ofString "/") "js" .explicit none =
        .ok [.file p] ∧
      sourceHost.isFile p = false := by
  intro p
  have hresolve := resolve_slashed (k := 4091) (by decide) "js" .explicit
  have hlong : Path.limit ≤ p.bytes.length := by
    have hchild := Path.le_length_child (bytes_slashed_ne_nil 4091) (n := "a.js".toList)
      (by decide)
    rw [length_slashed] at hchild
    exact le_trans (by decide) hchild
  refine ⟨sourceHost_wellFormed, sourceHost_namesFit, rfl, hresolve, ?_⟩
  rw [← Bool.not_eq_true, Host.isFile_iff]
  exact fun h => Nat.not_lt_of_le hlong h.2.2.2

end Target

end SiteLint
