import SiteLint.Proofs.DirectoryLookup

/-!
A target on the command line and the same target among the configured entries.

A directory that is named on the command line is walked by the pass that reads it, and a configured
one at once. Both ways give the same files in the same order: a walk gives each file at one path, so
nothing is left out where paths are kept apart.
-/

namespace SiteLint

lemma LinterConfig.steps_ne_nil_of_accepts {c : LinterConfig} {p : Path}
    (h : c.accepts p = true) : p.steps ≠ [] := by
  intro hsteps
  have hsolid : p.solidPieces = [] := by
    rcases p.steps_eq with heq | heq
    · rw [← heq, hsteps]
    · rw [hsteps] at heq
      simp at heq
  have hpieces : p.pieces.filterMap Component.ofPiece? = [] := by
    refine List.filterMap_eq_nil_iff.2 fun piece hpiece => ?_
    have hempty : piece = [] := by simpa using List.filter_eq_nil_iff.1 hsolid piece hpiece
    simp [hempty, Component.ofPiece?]
  have hname : p.fileName? = none := by
    rw [Path.fileName?, Path.components, hpieces, List.append_nil]
    split_ifs <;> rfl
  simp [accepts, Path.extension?, hname] at h

lemma Host.isFile_of_accepts {host : Host} {c : LinterConfig} {p : Path} {e : Entry}
    (he : host.entry p true = .ok e) (hdir : e.isDirectory = false) (h : c.accepts p = true) :
    host.isFile p = true := by
  have hlink := not_link_of_entry (LinterConfig.steps_ne_nil_of_accepts h) he
  cases e with
  | file => simp [isFile, he, Entry.isFile]
  | link n target => exact absurd rfl (hlink n target)
  | directory => cases hdir

namespace Target

lemma distinct_eq_self {ps : List Path} (h : ps.Pairwise fun p q => p.same q = false) :
    distinct ps = ps := by
  induction ps with
  | nil => rfl
  | cons p ps ih =>
    rw [List.pairwise_cons] at h
    rw [distinct, ih h.2, List.filter_eq_self.2 fun q hq => by simp [h.1 q hq]]

lemma pairwise_filesBeneath {host : Host} {c : LinterConfig} {dir : Path}
    (hwell : host.tree.WellFormed) (hdir : host.isDirectory dir = true) :
    (c.filesBeneath host dir).Pairwise fun p q => p.same q = false := by
  obtain ⟨top, htop, hisdir⟩ := Host.isDirectory_iff.1 hdir
  obtain ⟨l, hl, hat⟩ := Host.entry_eq_ok.1 htop
  have hsorted := Entry.pairwise_filesAt (hwell.of_at hat) (Host.bytes_ne_nil_of_locate hl)
  rw [LinterConfig.filesBeneath, Host.filesBeneath_eq htop hisdir]
  refine (hsorted.filter _).imp fun {p q} hlt => ?_
  rw [← Bool.not_eq_true, Path.same, decide_eq_true_iff]
  intro hsame
  rw [Path.namesBelow, Path.namesBelow, hsame] at hlt
  exact List.lt_irrefl _ hlt

lemma entryFiles_plain {host : Host} {c : LinterConfig} {root p : Path} {entry : String}
    (hplain : Glob.hasWildcard entry.toList = false) (hp : root.join (.ofString entry) = p) :
    entryFiles? host c root entry =
      some (match host.entry p true with
        | .error _ => []
        | .ok d =>
          if d.isDirectory then c.filesBeneath host p
          else if c.accepts p then [p]
          else []) := by
  simp only [entryFiles?, hplain, Bool.false_eq_true, if_false, hp]
  cases he : host.entry p true with
  | error e => simp [Host.isDirectory, Host.isFile, he]
  | ok d =>
    have hdirectory : host.isDirectory p = d.isDirectory := by simp [Host.isDirectory, he]
    rw [hdirectory]
    cases hd : d.isDirectory with
    | true => simp [hd]
    | false =>
      cases hc : c.accepts p with
      | true => simp [hd, Host.isFile_of_accepts he hd hc]
      | false => simp [hd]

lemma expand_configured (host : Host) (c : LinterConfig) (root : Path) (entry : String) :
    expand host c (configured host { c with targets := [entry] } root) =
      distinct ((entryFiles? host c root entry).getD []) := by
  have hfiles (ps : List Path) : expand host c (ps.map file) = ps := by
    simp [expand, List.flatMap_map, files]
  have hentry : entryFiles? host { c with targets := [entry] } root entry =
      entryFiles? host c root entry := rfl
  rw [configured, hfiles, List.flatMap_singleton, hentry]

/-- **The same target, named and configured.** A name on the command line that is taken covers the
files that it gives as the only configured entry, in the same order. A name that is refused gives
none there. -/
theorem named_as_configured (host : Host) (c : LinterConfig) (root : Path) (linter : String)
    (scope : Scope) (name : String) (hwell : host.tree.WellFormed)
    (hplain : Glob.hasWildcard name.toList = false) :
    ∃ listed, resolve host { c with targets := [name] } root linter scope none = .ok listed ∧
      (∀ named, resolve host c root linter scope (some name) = .ok named →
        expand host c named = expand host c listed) ∧
      ∀ failure, resolve host c root linter scope (some name) = .error failure →
        expand host c listed = [] := by
  generalize hp : root.join (.ofString name) = p
  have hnamed : resolve host c root linter scope (some name) = _ :=
    congrArg (Except.map fun t => [t]) (requested_eq hp)
  refine ⟨_, rfl, ?_⟩
  rw [hnamed, expand_configured, entryFiles_plain hplain hp, Option.getD_some]
  cases he : host.entry p true with
  | error e => simp [Except.map, distinct]
  | ok d =>
    cases hd : d.isDirectory with
    | true =>
      -- the walk through the directory is put off in one case and made at once in the other
      have hdir : host.isDirectory p = true := Host.isDirectory_iff.2 ⟨d, he, hd⟩
      simp [Except.map, hd, expand, files, distinct_eq_self (pairwise_filesBeneath hwell hdir)]
    | false => cases c.accepts p <;> simp [Except.map, hd, expand, files, distinct]

theorem source_named_as_configured :
    let c := sourceConfig ["b.js"]
    sourceHost.tree.WellFormed ∧ Glob.hasWildcard "src".toList = false ∧
      resolve sourceHost c (.ofString "/") "js" .explicit (some "src") =
        .ok [.directory (.ofString "/src")] ∧
      expand sourceHost c [.directory (.ofString "/src")] = [.ofString "/src/a.js"] ∧
      resolve sourceHost { c with targets := ["src"] } (.ofString "/") "js" .explicit none =
        .ok [.file (.ofString "/src/a.js")] := by
  intro c
  have hnamed : resolve sourceHost c (.ofString "/") "js" .explicit (some "src") =
      .ok [.directory (.ofString "/src")] := by cbv
  have hlisted : resolve sourceHost { c with targets := ["src"] } (.ofString "/") "js" .explicit
      none = .ok [.file (.ofString "/src/a.js")] := by cbv
  obtain ⟨listed, hresolve, hsame, -⟩ := named_as_configured sourceHost c (.ofString "/") "js"
    .explicit "src" sourceHost_wellFormed (by decide)
  obtain rfl : [.file (.ofString "/src/a.js")] = listed :=
    Except.ok.inj (hlisted.symm.trans hresolve)
  exact ⟨sourceHost_wellFormed, by decide, hnamed, hsame _ hnamed, hlisted⟩

end Target

end SiteLint
