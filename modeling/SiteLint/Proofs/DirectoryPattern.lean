import SiteLint.Proofs.NamedTarget
import SiteLint.Proofs.PatternSearch

/-!
A directory as an entry, and the pattern for all that is in it.

Both give the regular files of the directory that the linter handles, in the order of their names.
They part at symbolic links. A walk takes its files from the entries it reads and passes over links,
while a pattern follows them, so a link to a file is given by the pattern alone.
-/

namespace SiteLint

namespace Path

/-- The path is one name beneath the directory. -/
def liesIn (p dir : Path) : Bool := p.components.dropLast = dir.components

end Path

lemma LinterConfig.accepts_of_components (c : LinterConfig) {p q : Path}
    (h : p.components = q.components) : c.accepts p = c.accepts q := by
  simp only [accepts, Path.extension?, Path.fileName?, h]

/-! ### The walk -/

lemma flatMap_ite {α β : Type} (f : α → β) (p : α → Bool) (as : List α) :
    (as.flatMap fun a => if p a then [f a] else []) = (as.filter p).map f := by
  induction as with
  | nil => rfl
  | cons a as ih => cases h : p a <;> simp [h, ih]

variable {host : Host} {c : LinterConfig} {dir : Path}

lemma Host.filesBeneath_eq_listing (hdir : host.isDirectory dir = true) :
    host.filesBeneath dir = (host.listing dir).flatMap fun e => e.filesAt (dir.child e.name) := by
  obtain ⟨top, htop, hisdir⟩ := isDirectory_iff.1 hdir
  cases top with
  | file | link => cases hisdir
  | directory m es =>
    have hsort : (es.mergeSort fun a b => Name.atMost a.name b.name).map
        (fun e => (e.name, e.filesAt (dir.child e.name))) =
        (es.map fun e => (e.name, e.filesAt (dir.child e.name))).mergeSort
          fun a b => Name.atMost a.1 b.1 := List.map_mergeSort fun _ _ _ _ => rfl
    rw [filesBeneath_directory htop, Entry.inNameOrder, Entry.filesAmong_eq, ← hsort,
      List.flatMap_map, listing, htop]
    rfl

lemma Entry.filter_filesAt {e : Entry} (he : e.WellFormed) (hn : e.name.IsProper)
    (hdir : dir.bytes ≠ []) :
    (e.filesAt (dir.child e.name)).filter (·.liesIn dir) =
      if e.isFile then [dir.child e.name] else [] := by
  generalize e.name = n at hn
  have hchild := Path.components_child hdir hn
  cases e with
  | file =>
    have hlies : (dir.child n).liesIn dir = true := by
      rw [Path.liesIn, hchild, List.dropLast_concat]
      exact decide_eq_true rfl
    simp [filesAt, isFile, hlies]
  | link => simp [filesAt, isFile]
  | directory m es =>
    refine List.filter_eq_nil_iff.2 ?_
    intro p hp
    obtain ⟨l, hl, -, rfl⟩ := (mem_filesAt he (Path.bytes_child_ne_nil hdir hn)).1 hp
    have hne : l ≠ [] := by
      rintro rfl
      obtain ⟨k, bytes, hat⟩ := hl
      cases hat
    -- there are at least two names below the directory
    have hcomponents := Path.components_descend (Path.bytes_child_ne_nil hdir hn) (hl.proper he)
    rw [Path.liesIn, hcomponents, hchild,
      List.dropLast_append_of_ne_nil (mt List.map_eq_nil_iff.1 hne), List.append_assoc]
    simp

lemma LinterConfig.filter_filesBeneath (hwell : host.tree.WellFormed)
    (hdir : host.isDirectory dir = true) :
    (c.filesBeneath host dir).filter (·.liesIn dir) =
      ((host.listing dir).filter fun e => e.isFile && c.accepts (dir.child e.name)).map
        fun e => dir.child e.name := by
  obtain ⟨top, htop, -⟩ := Host.isDirectory_iff.1 hdir
  obtain ⟨l, hl, -⟩ := Host.entry_eq_ok.1 htop
  have hbytes := Host.bytes_ne_nil_of_locate hl
  have hentries : ∀ e ∈ host.listing dir,
      (e.filesAt (dir.child e.name)).filter (fun p => p.liesIn dir && c.accepts p) =
        if e.isFile && c.accepts (dir.child e.name) then [dir.child e.name] else [] := by
    intro e he
    have hdirect := Entry.filter_filesAt (Host.wellFormed_of_mem_listing hwell he)
      (Glob.proper_of_mem_listing hwell he) hbytes
    have hswap : (fun p : Path => p.liesIn dir && c.accepts p) =
        fun p => c.accepts p && p.liesIn dir := funext fun p => Bool.and_comm _ _
    rw [hswap, ← List.filter_filter, hdirect]
    cases e.isFile <;> simp [List.filter_cons]
  rw [filesBeneath, Host.filesBeneath_eq_listing hdir, List.filter_filter, List.filter_flatMap,
    ← flatMap_ite, List.flatMap_congr hentries]

/-! ### The pattern -/

namespace Glob

variable {root p q : Path}

/-- Where the pieces of a path from the top and of a path beneath it lead. -/
def landing (p q : Path) : Path := (⟨[slash]⟩ : Path).descend (pathPieces p ++ q.pieces)

lemma notMem_landing {n : Name} (h : n ∈ pathPieces p ++ q.pieces) : slash ∉ n :=
  (List.mem_append.1 h).elim notMem_pathPieces Text.notMem_of_mem_splitAt

lemma spells_landing (hp : p.isAbsolute = true) (hq : q.isAbsolute = false) :
    Path.Spells (p.join q).solidPieces (landing p q) := by
  have htop : Path.Spells [] (⟨[slash]⟩ : Path) := .plain
  have hspells := htop.descend (List.forall_mem_nil _) fun _ => @notMem_landing p q _
  rwa [List.nil_append, List.filter_append, filter_pathPieces hp, ← Path.solidPieces,
    ← Path.solidPieces_join (Path.bytes_ne_nil_of_isAbsolute hp) hq] at hspells

lemma isAbsolute_landing : (landing p q).isAbsolute = true :=
  Path.isAbsolute_descend rfl _

lemma landing_child (hp : p.isAbsolute = true) (hq : q.isAbsolute = false) {n : Name}
    (hn : n.IsProper) : (landing p q).child n = ((p.join q).child n).plain := by
  have hjoin : (p.join q).isAbsolute = true := by simp [hp]
  rw [(spells_landing hp hq).child (fun _ => Path.mem_solidPieces) hn.noSlash, Path.plain,
    Path.solidPieces_child (Path.bytes_ne_nil_of_isAbsolute hjoin) hn]

lemma sublist_landing (hp : p.isAbsolute = true) (hq : q.isAbsolute = false) :
    (landing p q).bytes.Sublist (p.join q).bytes := by
  refine (Path.descend_top_sublist fun _ => @notMem_landing p q _).trans ?_
  obtain ⟨k, hk⟩ := bytes_eq_pathPieces hp
  obtain ⟨bs, hjoin, hbs⟩ := Path.bytes_join_eq (Path.bytes_ne_nil_of_isAbsolute hp) hq
  have hpieces : Text.glue slash q.pieces = q.bytes := Text.glue_splitAt q.bytes
  have hsome : q.pieces ≠ [] := Text.splitAt_ne_nil _ _
  rw [hjoin]
  by_cases hne : pathPieces p = []
  · rw [hne, List.nil_append, hpieces]
    exact List.sublist_append_right _ _
  · rw [Text.glue_append hne hsome, hpieces, ← List.cons_append]
    refine List.Sublist.append ?_ (List.Sublist.refl _)
    rcases hbs with hbs | hbs
    · cases k with
      | zero =>
        have hlast := getLast_pathPieces hp hne
        rw [List.replicate_zero, List.append_nil] at hk
        rw [← hk, hbs, List.getLast?_concat] at hlast
        exact absurd rfl hlast
      | succ k =>
        rw [hk, List.replicate_succ', ← List.append_assoc] at hbs
        rw [← List.append_cancel_right hbs]
        exact List.sublist_append_left _ _
    · rw [← hbs, hk]
      exact List.sublist_append_left _ _

lemma entry_landing (hp : p.isAbsolute = true) (hq : q.isAbsolute = false) {m : Name}
    {es : List Entry} (h : host.entry (p.join q) true = .ok (.directory m es)) :
    host.entry (landing p q) true = .ok (.directory m es) := by
  have hjoin : (p.join q).isAbsolute = (landing p q).isAbsolute := by
    rw [isAbsolute_landing]
    simp [hp]
  have hpieces := (spells_landing hp hq).solidPieces fun _ => Path.mem_solidPieces
  have hadmissible := (Host.entry_eq_directory_iff.1 h).1
  exact Host.entry_of_same_pieces h hjoin hpieces.symm (hadmissible.of_sublist
    (sublist_landing hp hq) (Path.bytes_ne_nil_of_isAbsolute isAbsolute_landing))

lemma listing_landing (hp : p.isAbsolute = true) (hq : q.isAbsolute = false)
    (hdir : host.isDirectory (p.join q) = true) :
    host.listing (landing p q) = host.listing (p.join q) := by
  obtain ⟨top, htop, hisdir⟩ := Host.isDirectory_iff.1 hdir
  cases top with
  | file | link => cases hisdir
  | directory m es => rw [Host.listing, Host.listing, htop, entry_landing hp hq htop]

lemma hasWildcard_of_mem_splitAt {cs piece : List Char} (h : hasWildcard cs = false)
    (hpiece : piece ∈ Text.splitAt '/' cs) : hasWildcard piece = false := by
  have hsublist : piece.Sublist cs := by
    have hglue : (Text.glue '/' [piece]).Sublist (Text.glue '/' (Text.splitAt '/' cs)) :=
      Text.glue_sublist (List.singleton_sublist.2 hpiece)
    rwa [Text.glue_splitAt] at hglue
  rw [hasWildcard, List.any_eq_false] at h ⊢
  exact fun c hc => h c (hsublist.subset hc)

lemma matchesAll_anyText (cs : List Char) : matchesAll [.anyText] cs = true := by
  induction cs with
  | nil => simp [matchesAll]
  | cons c cs ih => rw [matchesAll, ih, Bool.or_true]

lemma acceptsName_anyText (n : Name) :
    (Pattern.tokens [.anyText]).acceptsName n = decide n.IsText := by
  rw [Bool.eq_iff_iff, decide_eq_true_iff, acceptsName_iff]
  exact exists_congr fun cs => and_iff_left (matchesAll_anyText cs)

lemma compile_all {cs : List Char} (h : hasWildcard cs = false) :
    (terminatedPieces (cs ++ ['/', '*'])).mapM compile? =
      some ((Text.splitAt '/' cs).map literal ++ [.tokens [.anyText]]) := by
  have hpieces : terminatedPieces (cs ++ ['/', '*']) = Text.splitAt '/' cs ++ [['*']] := by
    have hsplit : Text.splitAt '/' (cs ++ ['/', '*']) = Text.splitAt '/' cs ++ [['*']] :=
      Text.splitAt_append_sep '/' cs ['*']
    rw [terminatedPieces, hsplit]
    simp
  have hstar : compile? ['*'] = some (.tokens [.anyText]) := by simp [compile?, tokenize]
  rw [hpieces, mapM_some_iff]
  refine List.rel_append ?_ (.cons hstar .nil)
  rw [List.forall₂_map_right_iff, List.forall₂_same]
  exact fun piece hpiece => compile_plain (hasWildcard_of_mem_splitAt h hpiece)

lemma pathsMatching_all {d : String} (hroot : root.isAbsolute = true)
    (hplain : hasWildcard d.toList = false) :
    pathsMatching? host root (d.toList ++ ['/', '*']) =
      some (search host false ((rootPieces root ++ Text.splitAt '/' d.toList).map literal ++
        [.tokens [.anyText]]) ⟨[slash]⟩) := by
  have hend : (d.toList ++ ['/', '*']).getLast? ≠ some '/' := by simp
  rw [pathsMatching_absolute hroot (compile_all hplain) hend, ← List.append_assoc,
    ← List.map_append, mergeDepths_literals]
  rfl

end Glob

namespace Target

variable {root : Path} {d : String}

/-- The files that the names of a directory lead to, links followed. A name that is no text is passed
over. -/
def filesIn (host : Host) (c : LinterConfig) (dir : Path) : List Path :=
  ((host.listing dir).filter fun e => decide e.name.IsText &&
    (host.isFile (dir.child e.name).plain && c.accepts (dir.child e.name))).map
      fun e => (dir.child e.name).plain

lemma filter_landing (hwell : host.tree.WellFormed) (hroot : root.isAbsolute = true) {q : Path}
    (hq : q.isAbsolute = false) (hjoin : root.join q = dir) :
    (((host.listing dir).filter fun e => decide e.name.IsText).map
        fun e => (Glob.landing root q).child e.name).filter
          (fun p => host.isFile p && c.accepts p) = filesIn host c dir := by
  subst hjoin
  have habsolute : (root.join q).isAbsolute = true := by simp [hroot]
  have hspelled : ∀ e ∈ (host.listing (root.join q)).filter fun e => decide e.name.IsText,
      (Glob.landing root q).child e.name = ((root.join q).child e.name).plain :=
    fun e he => Glob.landing_child hroot hq
      (Glob.proper_of_mem_listing hwell (List.mem_filter.1 he).1)
  rw [List.map_congr_left hspelled, List.filter_map, List.filter_filter, filesIn]
  refine congrArg (List.map _) (List.filter_congr fun e _ => ?_)
  rw [Function.comp_apply, c.accepts_of_components
    (Path.components_plain (Path.isAbsolute_child habsolute e.name)), Bool.and_comm]

lemma entryFiles_eq (hroot : root.isAbsolute = true) (hplain : Glob.hasWildcard d.toList = false) :
    entryFiles? host c root (d ++ "/*") =
      some ((Glob.search host false
        ((Glob.rootPieces root ++ Text.splitAt '/' d.toList).map Glob.literal ++
          [.tokens [.anyText]]) ⟨[slash]⟩).filter fun p => host.isFile p && c.accepts p) := by
  have htext : (d ++ "/*").toList = d.toList ++ ['/', '*'] := String.toList_append
  have hwild : Glob.hasWildcard (d.toList ++ ['/', '*']) = true := by simp [Glob.hasWildcard]
  rw [entryFiles?, htext, if_pos hwild, Glob.pathsMatching_all hroot hplain, Option.map_some]

lemma entryFiles_all (hwell : host.tree.WellFormed) (hroot : root.isAbsolute = true)
    (hrelative : (Path.ofString d).isAbsolute = false)
    (hplain : Glob.hasWildcard d.toList = false) (hjoin : root.reread.join (.ofString d) = dir)
    (hdir : host.isDirectory dir = true) :
    entryFiles? host c root (d ++ "/*") = some (filesIn host c dir) := by
  have hwanted : ∀ p, (host.isFile p && c.accepts p) = true → host.isFile p = true :=
    fun p hp => (Bool.and_eq_true_iff.1 hp).1
  have hread : root.reread.isAbsolute = true := root.isAbsolute_reread.trans hroot
  have hpieces : (Glob.rootPieces root ++ Text.splitAt '/' d.toList).map Text.Utf8.encode =
      Glob.pathPieces root.reread ++ (Path.ofString d).pieces := by
    rw [List.map_append, Glob.encode_rootPieces hroot, ← Text.Utf8.splitAt_encode]
    rfl
  have hnames : ∀ piece ∈ Glob.rootPieces root ++ Text.splitAt '/' d.toList, '/' ∉ piece :=
    fun piece hpiece =>
      (List.mem_append.1 hpiece).elim Glob.notMem_rootPieces Text.notMem_of_mem_splitAt
  have hstands := Glob.standsFor_literals hnames
  rw [hpieces] at hstands
  rw [entryFiles_eq hroot hplain, Glob.search_standing hwell rfl rfl hwanted hstands,
    Glob.search_last rfl, ← Glob.landing, Glob.filter_meets Glob.isAbsolute_landing hwanted,
    Glob.listing_landing hread hrelative (hjoin.symm ▸ hdir), hjoin,
    List.filter_congr fun (e : Entry) _ => Glob.acceptsName_anyText e.name,
    filter_landing hwell hread hrelative hjoin]

/-- A path is known by its components, and the names in a directory are all different. -/
lemma map_filter_listing_iff (hwell : host.tree.WellFormed) {p q : Entry → Bool}
    {cs : List Component} :
    ((host.listing dir).filter p).map (fun e => cs ++ [.name e.name]) =
        ((host.listing dir).filter q).map (fun e => cs ++ [.name e.name]) ↔
      ∀ e ∈ host.listing dir, p e = q e := by
  refine ⟨fun h e he => ?_, fun h => by rw [List.filter_congr h]⟩
  have hmem (r : Entry → Bool) :
      cs ++ [.name e.name] ∈ ((host.listing dir).filter r).map (fun e => cs ++ [.name e.name]) ↔
        r e = true := by
    constructor
    · intro hr
      obtain ⟨d, hd, hname⟩ := List.mem_map.1 hr
      obtain ⟨hd, hr⟩ := List.mem_filter.1 hd
      have hsame : d.name = e.name := by simpa using hname
      have heq : d = e := List.inj_on_of_nodup_map (Host.nodup_listing hwell dir) hd he hsame
      rwa [heq] at hr
    · exact fun hr => List.mem_map.2 ⟨e, List.mem_filter.2 ⟨he, hr⟩, rfl⟩
  rw [Bool.eq_iff_iff, ← hmem p, ← hmem q, h]

lemma resolve_single {entry : String} {ps : List Path} {linter : String} {scope : Scope}
    (h : entryFiles? host c root entry = some ps) :
    resolve host { c with targets := [entry] } root linter scope none =
      .ok ((distinct ps).map .file) := by
  have hentry : entryFiles? host { c with targets := [entry] } root entry = some ps := h
  simp [resolve, configured, hentry]

section

variable {q : Path} {e : Entry} (hwell : host.tree.WellFormed) (hroot : root.isAbsolute = true)
  (hq : q.isAbsolute = false) (hdir : host.isDirectory (root.join q) = true)
  (he : e ∈ host.listing (root.join q))
include hwell hroot hq hdir he

lemma isFile_listed_directory (h : e.isDirectory = true) :
    host.isFile ((root.join q).child e.name).plain = false := by
  have hproper := Glob.proper_of_mem_listing hwell he
  have hthere : e ∈ host.listing (Glob.landing root q) := by
    rwa [Glob.listing_landing hroot hq hdir]
  have hlink : ∀ n target, e ≠ .link n target := by
    rintro n target rfl
    cases h
  rw [← Glob.landing_child hroot hq hproper, ← Bool.not_eq_true, Host.isFile_iff_entry]
  rintro ⟨k, bytes, hfile⟩
  obtain rfl := Host.entry_of_listed hwell
    (Path.bytes_ne_nil_of_isAbsolute Glob.isAbsolute_landing) hthere hproper hlink hfile
  cases h

lemma isFile_listed_file (hfit : host.tree.NamesFit) (h : e.isFile = true)
    (hshort : ((root.join q).child e.name).plain.bytes.length < Path.limit) :
    host.isFile ((root.join q).child e.name).plain = true := by
  have hproper := Glob.proper_of_mem_listing hwell he
  obtain ⟨top, htop, hisdir⟩ := Host.isDirectory_iff.1 hdir
  cases top with
  | file | link => cases hisdir
  | directory m es =>
    have hheld : (Entry.directory m es).HoldsFile [e.name] := by
      have hat : (Entry.directory m es).at? [e.name] = some e := by
        rw [Entry.at?_cons, Host.find?_of_mem_listing hwell htop he]
        rfl
      cases e with
      | file n bytes => exact ⟨n, bytes, hat⟩
      | link | directory => cases h
    obtain ⟨hleads, hnul, hbytes⟩ := Host.leadsToFile_descend hwell hfit Glob.isAbsolute_landing
      (Glob.entry_landing hroot hq htop) rfl hheld
    rw [← Glob.landing_child hroot hq hproper] at hshort ⊢
    exact Host.isFile_iff.2 ⟨hleads, hnul, hbytes, hshort⟩

end

lemma leads_as_listed_iff {q : Path} (hwell : host.tree.WellFormed) (hfit : host.tree.NamesFit)
    (hroot : root.isAbsolute = true) (hq : q.isAbsolute = false)
    (hjoin : root.join q = dir) (hdir : host.isDirectory dir = true)
    (hshort : ∀ e ∈ host.listing dir, (dir.child e.name).plain.bytes.length < Path.limit) :
    (∀ e ∈ host.listing dir, c.accepts (dir.child e.name) = true →
        (e.isFile = true ↔ e.name.IsText ∧ host.isFile (dir.child e.name).plain = true)) ↔
      (∀ n target, .link n target ∈ host.listing dir → c.accepts (dir.child n) = true →
        n.IsText → host.isFile (dir.child n).plain = false) ∧
      ∀ n bytes, .file n bytes ∈ host.listing dir → c.accepts (dir.child n) = true → n.IsText := by
  constructor
  · intro h
    refine ⟨fun n target he haccepts htext => ?_, fun n bytes he haccepts => ?_⟩
    · have hlink := (h (.link n target) he haccepts).2
      exact Bool.eq_false_iff.2 fun hfile => Bool.false_ne_true (hlink ⟨htext, hfile⟩)
    · exact ((h (.file n bytes) he haccepts).1 rfl).1
  · subst hjoin
    rintro ⟨hlinks, hfiles⟩ e he haccepts
    cases e with
    | link n target =>
      refine ⟨fun h => absurd h Bool.false_ne_true, fun ⟨htext, hfile⟩ => ?_⟩
      exact absurd hfile (Bool.eq_false_iff.1 (hlinks n target he haccepts htext))
    | file n bytes =>
      have hfile := isFile_listed_file hwell hroot hq hdir he hfit rfl (hshort _ he)
      exact ⟨fun _ => ⟨hfiles n bytes he haccepts, hfile⟩, fun _ => rfl⟩
    | directory n es =>
      have hnone := isFile_listed_directory hwell hroot hq hdir he rfl
      refine ⟨fun h => absurd h Bool.false_ne_true, fun ⟨_, hfile⟩ => ?_⟩
      exact absurd hfile (Bool.eq_false_iff.1 hnone)

/-! ### Agreement -/

section

variable (hwell : host.tree.WellFormed) (hdir : dir.isAbsolute = true)
include hwell hdir

lemma components_listed {e : Entry} (he : e ∈ host.listing dir) :
    (dir.child e.name).components = dir.components ++ [.name e.name] :=
  Path.components_child (Path.bytes_ne_nil_of_isAbsolute hdir) (Glob.proper_of_mem_listing hwell he)

lemma components_listed_plain {e : Entry} (he : e ∈ host.listing dir) :
    (dir.child e.name).plain.components = dir.components ++ [.name e.name] := by
  rw [Path.components_plain (Path.isAbsolute_child hdir e.name), components_listed hwell hdir he]

lemma pairwise_filesIn : (filesIn host c dir).Pairwise fun p q => p.same q = false := by
  refine List.pairwise_map.2 (((Host.pairwise_listing hwell dir).filter _).imp_of_mem ?_)
  intro a b ha hb hlt
  rw [← Bool.not_eq_true, Path.same, decide_eq_true_iff,
    components_listed_plain hwell hdir (List.mem_filter.1 ha).1,
    components_listed_plain hwell hdir (List.mem_filter.1 hb).1]
  intro hsame
  have hname : a.name = b.name := by simpa using hsame
  rw [hname] at hlt
  exact List.lt_irrefl _ hlt

lemma filesIn_eq_iff (hisdir : host.isDirectory dir = true) :
    (filesIn host c dir).map Path.components =
        ((c.filesBeneath host dir).filter (·.liesIn dir)).map Path.components ↔
      ∀ e ∈ host.listing dir, c.accepts (dir.child e.name) = true →
        (e.isFile = true ↔ e.name.IsText ∧ host.isFile (dir.child e.name).plain = true) := by
  have hnames (p : Entry → Bool) {f : Entry → Path}
      (hf : ∀ e ∈ host.listing dir, (f e).components = dir.components ++ [.name e.name]) :
      (((host.listing dir).filter p).map f).map Path.components =
        ((host.listing dir).filter p).map fun e => dir.components ++ [.name e.name] := by
    rw [List.map_map]
    exact List.map_congr_left fun e he => hf e (List.mem_filter.1 he).1
  rw [filesIn, c.filter_filesBeneath hwell hisdir,
    hnames _ fun _ he => components_listed_plain hwell hdir he,
    hnames _ fun _ he => components_listed hwell hdir he, map_filter_listing_iff hwell]
  refine forall₂_congr fun e _ => ?_
  cases c.accepts (dir.child e.name) with
  | false => simp
  | true =>
    rw [Bool.and_true, Bool.and_true, Bool.eq_iff_iff, Bool.and_eq_true, decide_eq_true_iff]
    exact ⟨fun h _ => h.symm, fun h => (h rfl).symm⟩

end

lemma isText_of_mem_entryFiles (hroot : root.isAbsolute = true)
    (hplain : Glob.hasWildcard d.toList = false) {ps : List Path}
    (hps : entryFiles? host c root (d ++ "/*") = some ps) {p : Path} (hp : p ∈ ps) : p.IsText := by
  rw [entryFiles_eq hroot hplain] at hps
  cases hps
  refine Glob.isText_of_mem_search (fun pattern hpattern => ?_) ⟨"/", rfl⟩ (List.mem_filter.1 hp).1
  rcases List.mem_append.1 hpattern with hpattern | hpattern
  · obtain ⟨piece, -, rfl⟩ := List.mem_map.1 hpattern
    exact Glob.Pattern.noConfusion
  · obtain rfl := List.mem_singleton.1 hpattern
    exact Glob.Pattern.noConfusion

/-- Below a root that is no text the walk gives no text, and the pattern nothing else. -/
lemma agree_iff_nothing (hroot : root.isAbsolute = true)
    (hrelative : (Path.ofString d).isAbsolute = false) (hread : ¬ root.IsText)
    {matched : List Path} (hmatched : ∀ p ∈ matched, p.IsText) {es : List Entry}
    (hes : ∀ e ∈ es, e.name.IsProper) (hdir : root.join (.ofString d) = dir) :
    matched.map Path.components = (es.map fun e => dir.child e.name).map Path.components ↔
      matched = [] ∧ es = [] := by
  subst hdir
  have hjoin : (root.join (.ofString d)).isAbsolute = true := by simp [hroot]
  have hwalked : ∀ e ∈ es, ¬ ((root.join (.ofString d)).child e.name).IsText := by
    intro e he htext
    refine hread (Path.isText_iff_components.2 fun r hr => ?_)
    refine Path.isText_iff_components.1 htext r ?_
    rw [Path.components_child (Path.bytes_ne_nil_of_isAbsolute hjoin) (hes e he),
      Path.components_absolute hjoin,
      Path.solidPieces_join (Path.bytes_ne_nil_of_isAbsolute hroot) hrelative, List.filterMap_append,
      ← List.cons_append, ← Path.components_absolute hroot]
    exact List.mem_append_left _ (List.mem_append_left _ hr)
  refine ⟨fun h => ?_, fun ⟨hnone, hempty⟩ => by rw [hnone, hempty]; rfl⟩
  have hnone : es = [] := by
    rw [List.eq_nil_iff_forall_not_mem]
    intro e he
    have hmem : ((root.join (.ofString d)).child e.name).components ∈ matched.map Path.components :=
      h ▸ List.mem_map_of_mem (List.mem_map_of_mem he)
    obtain ⟨p, hp, hsame⟩ := List.mem_map.1 hmem
    refine hwalked e he (Path.isText_iff_components.2 ?_)
    rw [← hsame]
    exact Path.isText_iff_components.1 (hmatched p hp)
  rw [hnone] at h
  exact ⟨List.map_eq_nil_iff.1 h, hnone⟩

/-- **A directory as an entry, and the pattern for all that is in it.** Both give the names of the
directory in their order. Of the files that the directory gives, those directly in it are the
regular files among its entries; the pattern gives the files that those of its names lead to that
are texts. As long as the paths are short enough, the two are the same just when no symbolic link
that the linter handles by its name leads to a file, and the name of each file that it handles is a
text. A root that is no text is not searched by the pattern: there the two are the same just when
neither gives a file. -/
theorem directory_pattern_agrees_iff (host : Host) (c : LinterConfig) (root : Path) (d : String)
    (linter : String) (scope : Scope) (hwell : host.tree.WellFormed)
    (hroot : root.isAbsolute = true) (hrelative : (Path.ofString d).isAbsolute = false)
    (hplain : Glob.hasWildcard d.toList = false)
    (hdir : host.isDirectory (root.join (.ofString d)) = true) :
    let dir := root.join (.ofString d)
    ∃ walked matched : List Path,
      resolve host { c with targets := [d] } root linter scope none = .ok (walked.map .file) ∧
      resolve host { c with targets := [d ++ "/*"] } root linter scope none =
        .ok (matched.map .file) ∧
      walked.filter (·.liesIn dir) =
        ((host.listing dir).filter fun e => e.isFile && c.accepts (dir.child e.name)).map
          (fun e => dir.child e.name) ∧
      (root.IsText →
        matched = filesIn host c dir ∧
        (matched.map Path.components = (walked.filter (·.liesIn dir)).map Path.components ↔
          ∀ e ∈ host.listing dir, c.accepts (dir.child e.name) = true →
            (e.isFile = true ↔
              e.name.IsText ∧ host.isFile (dir.child e.name).plain = true)) ∧
        (host.tree.NamesFit →
          (∀ e ∈ host.listing dir, (dir.child e.name).plain.bytes.length < Path.limit) →
          (matched.map Path.components = (walked.filter (·.liesIn dir)).map Path.components ↔
            (∀ n target, .link n target ∈ host.listing dir → c.accepts (dir.child n) = true →
              n.IsText → host.isFile (dir.child n).plain = false) ∧
            ∀ n bytes, .file n bytes ∈ host.listing dir → c.accepts (dir.child n) = true →
              n.IsText))) ∧
      (¬ root.IsText →
        (matched.map Path.components = (walked.filter (·.liesIn dir)).map Path.components ↔
          matched = [] ∧ walked.filter (·.liesIn dir) = [])) := by
  intro dir
  have habsolute : dir.isAbsolute = true := by simp [dir, hroot]
  have hwalk : entryFiles? host c root d = some (c.filesBeneath host dir) := by
    simp [entryFiles?, hplain, hdir, dir]
  have hwalked : distinct (c.filesBeneath host dir) = c.filesBeneath host dir :=
    distinct_eq_self (pairwise_filesBeneath hwell hdir)
  have hmatch := @entryFiles_eq host c root d hroot hplain
  refine ⟨_, _, hwalked ▸ resolve_single hwalk, resolve_single hmatch,
    c.filter_filesBeneath hwell hdir, fun htext => ?_, fun hread => ?_⟩
  · have hjoin : root.reread.join (.ofString d) = dir := by rw [Path.reread_eq_iff.2 htext]
    have hall := entryFiles_all (c := c) hwell hroot hrelative hplain hjoin hdir
    have hfiles := Option.some.inj (hmatch.symm.trans hall)
    have hagree := @filesIn_eq_iff host c dir hwell habsolute hdir
    rw [hfiles, distinct_eq_self (pairwise_filesIn hwell habsolute)]
    exact ⟨rfl, hagree, fun hfit hshort => hagree.trans
      (leads_as_listed_iff hwell hfit hroot hrelative rfl hdir hshort)⟩
  · rw [c.filter_filesBeneath hwell hdir, List.map_eq_nil_iff]
    exact agree_iff_nothing hroot hrelative hread
      (fun p hp => isText_of_mem_entryFiles hroot hplain hmatch (mem_of_mem_distinct hp))
      (fun e he => Glob.proper_of_mem_listing hwell (List.mem_filter.1 he).1) rfl

/-- A site with a link to a directory among its sources, and one to a script in its library. -/
def linkedHost : Host where
  tree := .directory []
    [.directory "src".toList [.file ".h.js".toList [], .file "a.js".toList [],
        .directory "sub".toList [.file "c.js".toList []], .link "d.js".toList (.ofString "sub")],
      .directory "lib".toList [.file "a.js".toList [], .link "l.js".toList (.ofString "a.js")]]
  workingDirectory := []
  pluginHome := none
  noColor := false
  programDirectory := .ofString "/"

lemma linkedHost_wellFormed : linkedHost.tree.WellFormed := by decide

/-- Where the only link leads to a directory the walk and the pattern agree. -/
theorem directory_pattern_of_source :
    let c := sourceConfig []
    let dir := Path.ofString "/src"
    linkedHost.tree.WellFormed ∧ linkedHost.isDirectory dir = true ∧
      resolve linkedHost { c with targets := ["src"] } (.ofString "/") "js" .explicit none =
        .ok [.file (.ofString "/src/.h.js"), .file (.ofString "/src/a.js"),
          .file (.ofString "/src/sub/c.js")] ∧
      resolve linkedHost { c with targets := ["src" ++ "/*"] } (.ofString "/") "js" .explicit
        none = .ok [.file (.ofString "/src/.h.js"), .file (.ofString "/src/a.js")] ∧
      (Path.ofString "/").IsText ∧
      ∀ e ∈ linkedHost.listing dir, c.accepts (dir.child e.name) = true →
        (e.isFile = true ↔
          e.name.IsText ∧ linkedHost.isFile (dir.child e.name).plain = true) := by
  intro c dir
  have hdir : linkedHost.isDirectory (.ofString "/src") = true := by cbv
  have hwalk : resolve linkedHost { c with targets := ["src"] } (.ofString "/") "js" .explicit
      none = .ok ([.ofString "/src/.h.js", .ofString "/src/a.js",
        .ofString "/src/sub/c.js"].map .file) := by cbv
  have hpattern : resolve linkedHost { c with targets := ["src" ++ "/*"] } (.ofString "/") "js"
      .explicit none = .ok ([.ofString "/src/.h.js", .ofString "/src/a.js"].map .file) := by cbv
  obtain ⟨walked, matched, hwalked, hmatched, -, hread, -⟩ :=
    directory_pattern_agrees_iff linkedHost c (.ofString "/") "src" "js" .explicit
      linkedHost_wellFormed rfl rfl (by decide) hdir
  have hinjective : Function.Injective (List.map Target.file) :=
    List.map_injective_iff.2 fun _ _ => Target.file.inj
  obtain rfl := hinjective (Except.ok.inj (hwalk.symm.trans hwalked))
  obtain rfl := hinjective (Except.ok.inj (hpattern.symm.trans hmatched))
  obtain ⟨-, hagree, -⟩ := hread ⟨"/", rfl⟩
  exact ⟨linkedHost_wellFormed, hdir, hwalk, hpattern, ⟨"/", rfl⟩, hagree.1 (by decide)⟩

/-- A link to a script in the directory is given by the pattern alone. -/
theorem linked_file_by_pattern_only :
    linkedHost.tree.WellFormed ∧ linkedHost.isDirectory (.ofString "/lib") = true ∧
      resolve linkedHost (sourceConfig ["lib"]) (.ofString "/") "js" .explicit none =
        .ok [.file (.ofString "/lib/a.js")] ∧
      resolve linkedHost (sourceConfig ["lib" ++ "/*"]) (.ofString "/") "js" .explicit none =
        .ok [.file (.ofString "/lib/a.js"), .file (.ofString "/lib/l.js")] ∧
      (Path.ofString "/lib/l.js").liesIn (.ofString "/lib") = true :=
  ⟨linkedHost_wellFormed, by cbv, by cbv, by cbv, by decide⟩

end Target

end SiteLint
