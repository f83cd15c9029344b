import SiteLint.Proofs.TargetResolution

/-!
How deep beneath the root of a project a pattern reaches.

A pattern is held against the names of one directory after the other. Two stars lead down by any
number of directories, and a pattern that starts with a dot meets the two names that lead to the
directory itself and to the one above. Any other pattern leads down by one name.
-/

namespace SiteLint

/-! ### Components behind a leading dot -/

namespace Path

/-- The components of a path, with no regard to a dot in front. -/
def trail (p : Path) : List Component := dropHere p.components

lemma dropHere_append {as bs : List Component} (h : ∀ c ∈ bs, c ≠ .here) :
    dropHere (as ++ bs) = dropHere as ++ bs := by
  cases as with
  | nil =>
    cases bs with
    | nil => rfl
    | cons c bs =>
      cases c with
      | here => exact absurd rfl (h .here List.mem_cons_self)
      | _ => rfl
  | cons a as => cases a <;> rfl

lemma ne_here_of_ofPiece {n : Name} {c : Component} (h : c ∈ (Component.ofPiece? n).toList) :
    c ≠ .here := by
  unfold Component.ofPiece? at h
  split at h
  · simp at h
  · split at h <;> simp at h <;> simp [h]

lemma trail_relative {p : Path} (h : p.isAbsolute = false) :
    p.trail = p.pieces.filterMap Component.ofPiece? := by
  have hpieces : ∀ c ∈ p.pieces.filterMap Component.ofPiece?, c ≠ .here := by
    intro c hc
    obtain ⟨n, -, hn⟩ := List.mem_filterMap.1 hc
    exact ne_here_of_ofPiece (Option.mem_toList.2 hn)
  rw [trail, components, h, if_neg Bool.false_ne_true, dropHere_append hpieces]
  split <;> rfl

lemma trail_absolute {p : Path} (h : p.isAbsolute = true) :
    p.trail = .root :: p.pieces.filterMap Component.ofPiece? := by
  rw [trail, components, if_pos h]
  rfl

lemma trail_piece {n : Name} (hn : slash ∉ n) :
    trail ⟨n⟩ = (Component.ofPiece? n).toList := by
  have hrelative := isAbsolute_piece hn
  have hpieces : (⟨n⟩ : Path).pieces = [n] := Text.splitAt_of_notMem hn
  rw [trail_relative hrelative, hpieces]
  cases h : Component.ofPiece? n <;> simp [h]

lemma trail_child {p : Path} {n : Name} (hn : slash ∉ n) :
    (p.child n).trail = p.trail ++ (Component.ofPiece? n).toList := by
  by_cases hp : p.bytes = []
  · have hempty : p = ⟨[]⟩ := congrArg Path.mk hp
    have hrelative := isAbsolute_piece hn
    have hchild : p.child n = ⟨n⟩ := by simp [child, join, hrelative, hp]
    rw [hchild, trail_piece hn, hempty]
    rfl
  · rw [trail, components_child_piece hp hn, dropHere_append fun c hc => ne_here_of_ofPiece hc]
    rfl

lemma components_append_slashes {bs : List UInt8} (h : bs ≠ []) (k : Nat) :
    (⟨bs ++ List.replicate k slash⟩ : Path).components = (⟨bs⟩ : Path).components := by
  induction k with
  | zero => simp
  | succ k ih =>
    rw [List.replicate_succ', ← List.append_assoc, components_append_slash (by simp [h]), ih]

/-- The path lies so many levels beneath another, in the directory that names lead to. -/
def IsBeneath (p : Path) (levels : Nat) (top : Path) : Prop :=
  ∃ ns : List Name, ns.length = levels ∧ (∀ n ∈ ns, n.IsProper) ∧
    p.trail = top.trail ++ ns.map .name

end Path

namespace Glob

lemma trail_under {dir : Path} {n : Name} (hn : slash ∉ n) :
    (under dir n).trail = dir.trail ++ (Component.ofPiece? n).toList := by
  unfold under
  split
  · rename_i hdot
    have hdir : dir = ⟨[dot]⟩ := congrArg Path.mk hdot
    rw [Path.trail_piece hn, hdir]
    rfl
  · exact Path.trail_child hn

lemma trail_under_name {dir : Path} {n : Name} (hn : n.IsProper) :
    (under dir n).trail = dir.trail ++ [.name n] := by
  rw [trail_under hn.noSlash, Path.ofPiece_name hn]
  rfl

lemma lastName_of_trail {p : Path} {cs : List Component} {n : Name}
    (h : p.trail = cs ++ [.name n]) : lastName p = n := by
  have hlast : p.components.getLast? = some (.name n) := by
    unfold Path.trail Path.dropHere at h
    split at h
    · rename_i hcomponents
      rw [hcomponents, h, ← List.cons_append, List.getLast?_concat]
    · rw [h, List.getLast?_concat]
  rw [lastName, Path.fileName?, hlast]
  rfl

/-! ### What a search meets -/

/-- The components that patterns lead on by. -/
inductive Leads : List Pattern → List Component → Prop
  | nil : Leads [] []
  | name {p : Pattern} {n : Name} {ps : List Pattern} {cs : List Component}
    (h : p.acceptsName n = true) (hn : n.IsProper) (later : Leads ps cs) :
    Leads (p :: ps) (.name n :: cs)
  /-- The directory itself. -/
  | here {ts : List Token} {ps : List Pattern} {cs : List Component}
    (h : matchesAll (.char '.' :: ts) ['.'] = true) (later : Leads ps cs) :
    Leads (.tokens (.char '.' :: ts) :: ps) cs
  /-- The directory above. -/
  | up {ts : List Token} {ps : List Pattern} {cs : List Component}
    (h : matchesAll (.char '.' :: ts) ['.', '.'] = true) (later : Leads ps cs) :
    Leads (.tokens (.char '.' :: ts) :: ps) (.up :: cs)
  /-- Any number of directories. -/
  | beneath {ns : List Name} {ps : List Pattern} {cs : List Component}
    (hns : ∀ n ∈ ns, n.IsProper) (later : Leads ps cs) :
    Leads (.anyDepth :: ps) (ns.map .name ++ cs)

/-- The pattern can stand for another number of levels than one. -/
def Pattern.strays : Pattern → Bool
  | anyDepth => true
  | tokens (.char '.' :: ts) =>
    matchesAll (.char '.' :: ts) ['.'] || matchesAll (.char '.' :: ts) ['.', '.']
  | tokens _ => false

/-- A pattern that stands for itself stands for a proper name. -/
def Pattern.IsSolid (p : Pattern) : Prop :=
  ∀ cs : List Char, p.literal? = some cs → Name.IsProper cs

lemma Leads.names {ps : List Pattern} {cs : List Component} (h : Leads ps cs)
    (hps : ∀ p ∈ ps, p.strays = false) :
    ∃ ns : List Name, cs = ns.map .name ∧ (∀ n ∈ ns, n.IsProper) ∧
      List.Forall₂ (fun p n => p.acceptsName n = true) ps ns := by
  induction h with
  | nil => exact ⟨[], rfl, by simp, .nil⟩
  | @name p n ps cs h hn _ ih =>
    rw [List.forall_mem_cons] at hps
    obtain ⟨ns, rfl, hns, haccepts⟩ := ih hps.2
    exact ⟨n :: ns, rfl, List.forall_mem_cons.2 ⟨hn, hns⟩, .cons h haccepts⟩
  | here h | up h =>
    have hstray := (List.forall_mem_cons.1 hps).1
    simp [Pattern.strays, h] at hstray
  | beneath =>
    have hstray := (List.forall_mem_cons.1 hps).1
    simp [Pattern.strays] at hstray

lemma Leads.of_mergeDepths {ps : List Pattern} {cs : List Component}
    (h : Leads (mergeDepths ps) cs) : Leads ps cs := by
  fun_induction mergeDepths ps generalizing cs with
  | case1 ps ih => exact Leads.beneath (List.forall_mem_nil _) (ih h)
  | case2 p ps hp ih =>
    cases h with
    | name h hn later => exact .name h hn (ih later)
    | here h later => exact .here h (ih later)
    | up h later => exact .up h (ih later)
    | beneath hns later => exact .beneath hns (ih later)
  | case3 => exact h

lemma mem_of_mem_mergeDepths {p : Pattern} {ps : List Pattern} (h : p ∈ mergeDepths ps) :
    p ∈ ps := by
  fun_induction mergeDepths ps with
  | case1 ps ih => exact List.mem_cons_of_mem _ (ih h)
  | case2 p' ps hp ih =>
    rcases List.mem_cons.1 h with rfl | h
    · exact List.mem_cons_self
    · exact List.mem_cons_of_mem _ (ih h)
  | case3 => cases h

/-! ### The search -/

variable {host : Host} {dir q : Path}

lemma proper_of_mem_listing (hwell : host.tree.WellFormed) {e : Entry}
    (he : e ∈ host.listing dir) : e.name.IsProper := by
  unfold Host.listing at he
  split at he
  · rename_i top htop
    obtain ⟨l, -, hat⟩ := Host.entry_eq_ok.1 htop
    rw [List.mem_mergeSort] at he
    have htree := hwell.of_at hat
    cases htree with
    | file | link => cases he
    | directory _ _ _ proper => exact proper e he
  · cases he

lemma exists_of_mem_descendants (hwell : host.tree.WellFormed) {depth : Nat}
    (h : q ∈ descendants host depth dir) :
    ∃ (ns : List Name) (n : Name), (∀ m ∈ ns, m.IsProper) ∧ n.IsProper ∧
      q.trail = dir.trail ++ ns.map .name ++ [.name n] := by
  induction depth generalizing dir with
  | zero => cases h
  | succ depth ih =>
    simp only [descendants, List.mem_flatMap] at h
    obtain ⟨e, he, h⟩ := h
    have hn := proper_of_mem_listing hwell he
    have hunder := @trail_under_name dir e.name hn
    rcases List.mem_cons.1 h with rfl | h
    · exact ⟨[], e.name, by simp, hn, by simp [hunder]⟩
    · split at h
      · obtain ⟨ns, n, hns, hlast, htrail⟩ := ih h
        refine ⟨e.name :: ns, n, List.forall_mem_cons.2 ⟨hn, hns⟩, hlast, ?_⟩
        rw [htrail, hunder]
        simp
      · cases h

lemma acceptsName_encode (p : Pattern) (cs : List Char) :
    p.acceptsName (Text.Utf8.encode cs) = p.accepts cs := by
  rw [Pattern.acceptsName, Text.Utf8.text_encode, Option.any_some]

lemma acceptsName_iff {p : Pattern} {n : Name} :
    p.acceptsName n = true ↔ ∃ cs, n = Text.Utf8.encode cs ∧ p.accepts cs = true := by
  constructor
  · intro h
    obtain ⟨cs, htext, haccepts⟩ := (Option.any_eq_true _ _).1 h
    exact ⟨cs, Text.Utf8.eq_encode_of_text htext, haccepts⟩
  · rintro ⟨cs, rfl, haccepts⟩
    rwa [acceptsName_encode]

lemma exists_of_mem_meets (hwell : host.tree.WellFormed) {p : Pattern}
    (h : q ∈ meets host p dir) {ps : List Pattern} {cs : List Component} (later : Leads ps cs) :
    ∃ ds, Leads (p :: ps) ds ∧ dir.trail ++ ds = q.trail ++ cs := by
  simp only [meets, List.mem_append, List.mem_map] at h
  rcases h with ⟨n, hn, rfl⟩ | ⟨e, he, rfl⟩
  · split at hn
    · rename_i ts
      obtain ⟨hn, haccepts⟩ := List.mem_filter.1 hn
      have hdots : n = [dot, dot] ∨ n = [dot] := by simpa using hn
      rcases hdots with rfl | rfl
      · have hmatches := (acceptsName_encode _ ['.', '.']).symm.trans haccepts
        refine ⟨.up :: cs, .up hmatches later, ?_⟩
        rw [Path.trail_child (by decide)]
        simp [Component.ofPiece?]
      · have hmatches := (acceptsName_encode _ ['.']).symm.trans haccepts
        refine ⟨cs, .here hmatches later, ?_⟩
        rw [Path.trail_child (by decide)]
        simp [Component.ofPiece?]
    · cases hn
  · obtain ⟨he, haccepts⟩ := List.mem_filter.1 he
    have hn := proper_of_mem_listing hwell he
    refine ⟨.name e.name :: cs, .name haccepts hn later, ?_⟩
    rw [trail_under_name hn]
    simp

lemma tokens_of_literal {ts : List Token} {cs : List Char}
    (h : (Pattern.tokens ts).literal? = some cs) : ts = cs.map .char := by
  rw [Pattern.literal?, mapM_some_iff] at h
  induction h with
  | nil => rfl
  | @cons t c ts cs ht _ ih =>
    cases t with
    | char =>
      obtain rfl := Option.some.inj ht
      rw [List.map_cons, ih]
    | _ => cases ht

lemma accepts_of_literal {ts : List Token} {cs : List Char}
    (h : (Pattern.tokens ts).literal? = some cs) : matchesAll ts cs = true := by
  obtain rfl := tokens_of_literal h
  clear h
  induction cs with
  | nil => simp [matchesAll]
  | cons c cs ih => simp [matchesAll, Token.accepts, ih]

/-- What a search finds is led to from where it started. -/
lemma exists_of_mem_search (hwell : host.tree.WellFormed) {onlyDirectories : Bool}
    {ps : List Pattern} (hps : ∀ p ∈ ps, p.IsSolid)
    (h : q ∈ search host onlyDirectories ps dir) :
    ∃ cs, Leads ps cs ∧ q.trail = dir.trail ++ cs := by
  fun_induction search host onlyDirectories ps dir with
  | case1 | case6 => cases h
  | case2 here =>
    obtain rfl : q = here := by simpa using h
    exact ⟨[], .nil, by simp⟩
  | case3 dir =>
    obtain ⟨ns, n, hns, hn, htrail⟩ := exists_of_mem_descendants hwell (List.mem_filter.1 h).1
    have hall : ∀ m ∈ ns ++ [n], m.IsProper := by
      rw [List.forall_mem_append, List.forall_mem_singleton]
      exact ⟨hns, hn⟩
    refine ⟨_, .beneath hall .nil, ?_⟩
    rw [htrail]
    simp
  | case4 dir p rest ih =>
    obtain ⟨d, hd, hq⟩ := List.mem_flatMap.1 h
    obtain ⟨hd, haccepts⟩ := List.mem_filter.1 hd
    obtain ⟨ns, n, hns, hn, htrail⟩ := exists_of_mem_descendants hwell hd
    rw [lastName_of_trail htrail] at haccepts
    rw [List.forall_mem_cons, List.forall_mem_cons] at hps
    obtain ⟨cs, hcs, hrest⟩ := ih d hps.2.2 hq
    refine ⟨_, .beneath hns (.name haccepts hn hcs), ?_⟩
    rw [hrest, htrail]
    simp
  | case5 ts rest dir piece hpiece n next hthere ih =>
    rw [List.forall_mem_cons] at hps
    have hproper : Name.IsProper n := hps.1 piece hpiece
    have haccepts : (Pattern.tokens ts).acceptsName n = true :=
      (acceptsName_encode _ piece).trans (accepts_of_literal hpiece)
    obtain ⟨cs, hcs, hrest⟩ := ih hps.2 h
    refine ⟨.name n :: cs, .name haccepts hproper hcs, ?_⟩
    rw [hrest, trail_under_name hproper]
    simp
  | case7 dir rest ts hnone ih =>
    obtain ⟨d, hd, hq⟩ := List.mem_flatMap.1 h
    rw [List.forall_mem_cons] at hps
    obtain ⟨cs, hcs, hrest⟩ := ih d hps.2 hq
    obtain ⟨ds, hds, hmeets⟩ := exists_of_mem_meets hwell hd hcs
    exact ⟨ds, hds, hrest.trans hmeets.symm⟩

/-! ### From the root of a project -/

/-- The character has a meaning of its own in patterns. -/
def isWildcard (c : Char) : Bool := c = '*' || c = '?' || c = '['

lemma hasWildcard_cons (c : Char) (cs : List Char) :
    hasWildcard (c :: cs) = (isWildcard c || hasWildcard cs) := rfl

lemma eq_of_tokenize {cs n : List Char} (h : tokenize cs = some (n.map .char)) :
    n = cs ∧ hasWildcard cs = false := by
  fun_induction tokenize cs generalizing n with
  | case1 => exact ⟨by simpa using h, rfl⟩
  | case3 | case6 | case8 => cases h
  | case2 | case4 | case5 | case7 =>
    -- a character with a meaning of its own is no token of a name
    obtain ⟨ts, -, hts⟩ := Option.map_eq_some_iff.1 h
    cases n <;> simp at hts
  | case9 c cs hany _ hstar _ hset ih =>
    obtain ⟨ts, hts, heq⟩ := Option.map_eq_some_iff.1 h
    cases n with
    | nil => cases heq
    | cons d n =>
      obtain ⟨rfl, rfl⟩ : c = d ∧ ts = n.map .char := by simpa using heq
      obtain ⟨rfl, hrest⟩ := ih hts
      have hplain : isWildcard c = false := by
        simpa [isWildcard] using ⟨⟨hstar, hany⟩, hset⟩
      exact ⟨rfl, by rw [hasWildcard_cons, hplain, hrest]; rfl⟩

lemma isSolid_of_compile {piece : List Char} (hpiece : Name.IsProper piece) {p : Pattern}
    (h : compile? piece = some p) : p.IsSolid := by
  intro cs hcs
  unfold compile? at h
  split at h
  · cases h
    cases hcs
  · obtain ⟨ts, hts, rfl⟩ := Option.map_eq_some_iff.1 h
    rw [tokens_of_literal hcs] at hts
    rw [(eq_of_tokenize hts).1]
    exact hpiece

lemma literal_literal (cs : List Char) : (literal cs).literal? = some cs := by
  rw [literal, Pattern.literal?, mapM_some_iff, List.forall₂_map_left_iff, List.forall₂_same]
  exact fun c _ => rfl

lemma mergeDepths_literals (pieces : List (List Char)) (ps : List Pattern) :
    mergeDepths (pieces.map literal ++ ps) = pieces.map literal ++ mergeDepths ps := by
  induction pieces with
  | nil => rfl
  | cons piece pieces ih => simp [literal, mergeDepths, ← ih]

lemma search_literal {onlyDirectories : Bool} {piece : List Char} {ps : List Pattern} :
    search host onlyDirectories (literal piece :: ps) dir =
      if (if isDots piece then host.isDirectory dir
          else (host.entry (under dir piece) false).isOk) then
        search host onlyDirectories ps (under dir piece)
      else [] := by
  have hliteral : (Pattern.tokens (piece.map .char)).literal? = some piece := literal_literal piece
  rw [literal, search]
  simp only [hliteral]

lemma mem_search_of_literal {onlyDirectories : Bool} {piece : List Char} {ps : List Pattern}
    (h : q ∈ search host onlyDirectories (literal piece :: ps) dir) :
    q ∈ search host onlyDirectories ps (under dir piece) := by
  rw [search_literal, List.mem_ite_nil_right] at h
  exact h.2

lemma exists_of_mem_literals {onlyDirectories : Bool} {pieces : List (List Char)}
    {ps : List Pattern} (hpieces : ∀ piece ∈ pieces, '/' ∉ piece)
    (h : q ∈ search host onlyDirectories (pieces.map literal ++ ps) dir) :
    ∃ d, q ∈ search host onlyDirectories ps d ∧
      d.trail = dir.trail ++ (pieces.map Text.Utf8.encode).filterMap Component.ofPiece? := by
  induction pieces generalizing dir with
  | nil => exact ⟨dir, h, by simp⟩
  | cons piece pieces ih =>
    rw [List.forall_mem_cons] at hpieces
    obtain ⟨d, hd, htrail⟩ := ih hpieces.2 (mem_search_of_literal h)
    have hslash : slash ∉ Text.Utf8.encode piece := mt Text.Utf8.slash_mem_encode.1 hpieces.1
    refine ⟨d, hd, ?_⟩
    rw [htrail, trail_under hslash, List.append_assoc]
    cases hpiece : Component.ofPiece? (Text.Utf8.encode piece) <;> simp [hpiece]

/-- Where a search starts: at the path that the text of a project's root writes, which is the root
itself when it is a text, or at the top when that text is empty. -/
def startOf (root : Path) : Path :=
  if root.toString = "" then ⟨[slash]⟩ else root.reread

lemma startOf_ofString {text : String} (h : text ≠ "") :
    startOf (.ofString text) = .ofString text := by
  rw [startOf, Path.toString_ofString, if_neg h, Path.reread_eq_iff.2 ⟨text, rfl⟩]

lemma exists_trailing {α : Type} [DecidableEq α] (sep : α) (xs : List α) :
    ∃ k, xs = (xs.reverse.dropWhile (· = sep)).reverse ++ List.replicate k sep := by
  refine ⟨(xs.reverse.takeWhile (· = sep)).length, ?_⟩
  have hall : xs.reverse.takeWhile (· = sep) =
      List.replicate (xs.reverse.takeWhile (· = sep)).length sep :=
    List.eq_replicate_of_mem fun x hx => by simpa using List.mem_takeWhile_imp hx
  rw [← List.reverse_replicate, ← hall, ← List.reverse_append, List.takeWhile_append_dropWhile,
    List.reverse_reverse]

lemma trail_startOf {root : Path} {base : List Char}
    (hbase : base = (root.toString.toList.reverse.dropWhile (· = '/')).reverse) :
    (startOf root).trail = if base = [] then [.root] else Path.trail ⟨Text.Utf8.encode base⟩ := by
  obtain ⟨k, hk⟩ := exists_trailing '/' root.toString.toList
  rw [← hbase] at hk
  have hbytes : Text.Utf8.encode root.toString.toList =
      Text.Utf8.encode base ++ List.replicate k slash := by
    rw [hk, Text.Utf8.encode_append, Text.Utf8.encode_replicate_slash]
  by_cases hempty : base = []
  · rw [if_pos hempty]
    cases k with
    | zero =>
      have hroot : root.toString = "" := String.toList_inj.1 (by simp [hk, hempty])
      rw [startOf, if_pos hroot]
      rfl
    | succ k =>
      have hroot : root.toString ≠ "" := by
        intro hroot
        simp [hroot] at hk
      have hstart : root.reread = ⟨[slash] ++ List.replicate k slash⟩ :=
        congrArg Path.mk (by rw [hbytes, hempty]; rfl)
      rw [startOf, if_neg hroot, hstart, Path.trail, Path.components_append_slashes (by simp)]
      rfl
  · have hroot : root.toString ≠ "" := by
      intro hroot
      simp [hroot, hempty] at hk
    have hstart : root.reread = ⟨Text.Utf8.encode base ++ List.replicate k slash⟩ :=
      congrArg Path.mk hbytes
    rw [if_neg hempty, startOf, if_neg hroot, hstart, Path.trail,
      Path.components_append_slashes (mt Text.Utf8.encode_eq_nil.1 hempty)]
    rfl

lemma exists_of_mem_pathsMatching (hwell : host.tree.WellFormed) {root : Path}
    {entry : List Char} {patterns : List Pattern} {found : List Path}
    (hpatterns : (terminatedPieces entry).mapM compile? = some patterns)
    (hsolid : ∀ p ∈ patterns, p.IsSolid) (h : pathsMatching? host root entry = some found)
    (hq : q ∈ found) :
    ∃ cs, Leads patterns cs ∧ q.trail = (startOf root).trail ++ cs := by
  have hmerged : ∀ p ∈ mergeDepths patterns, p.IsSolid := fun p hp =>
    hsolid p (mem_of_mem_mergeDepths hp)
  have hfrom {onlyDirectories : Bool} {top : Path} {pieces : List (List Char)}
      (hpieces : ∀ piece ∈ pieces, '/' ∉ piece)
      (hmem : q ∈ search host onlyDirectories (mergeDepths (pieces.map literal ++ patterns)) top) :
      ∃ cs, Leads patterns cs ∧ q.trail =
        top.trail ++ (pieces.map Text.Utf8.encode).filterMap Component.ofPiece? ++ cs := by
    rw [mergeDepths_literals] at hmem
    obtain ⟨d, hd, htrail⟩ := exists_of_mem_literals hpieces hmem
    obtain ⟨cs, hcs, hrest⟩ := exists_of_mem_search hwell hmerged hd
    exact ⟨cs, hcs.of_mergeDepths, by rw [hrest, htrail]⟩
  simp only [pathsMatching?, hpatterns, Option.bind_eq_bind, Option.bind_some] at h
  generalize hbase : (root.toString.toList.reverse.dropWhile (· = '/')).reverse = base at h
  rw [trail_startOf hbase.symm]
  split at h
  · rename_i hslash
    cases h
    obtain ⟨tail, rfl⟩ := List.head?_eq_some_iff.1 hslash
    obtain ⟨cs, hcs, hrest⟩ := hfrom (fun piece => Text.notMem_of_mem_splitAt) hq
    have habsolute : (⟨Text.Utf8.encode ('/' :: tail)⟩ : Path).isAbsolute = true := rfl
    refine ⟨cs, hcs, ?_⟩
    rw [hrest, if_neg (List.cons_ne_nil _ _), Path.trail_absolute habsolute, Path.pieces,
      Text.Utf8.splitAt_encode]
    rfl
  · rename_i hslash
    split at h
    · rename_i hempty
      cases h
      obtain ⟨cs, hcs, hrest⟩ := @hfrom _ _ [] (by simp) hq
      refine ⟨cs, hcs, ?_⟩
      rw [hrest, if_pos hempty]
      rfl
    · rename_i hne
      cases h
      obtain ⟨cs, hcs, hrest⟩ := hfrom (fun piece => Text.notMem_of_mem_splitAt) hq
      refine ⟨cs, hcs, ?_⟩
      have hrelative : (⟨Text.Utf8.encode base⟩ : Path).isAbsolute = false := by
        rw [Path.isAbsolute, decide_eq_false_iff_not]
        exact mt (Text.Utf8.head_encode_ascii (c := '/') (by decide)).1 hslash
      rw [hrest, if_neg hne, Path.trail_relative hrelative, Path.pieces, Text.Utf8.splitAt_encode]
      rfl

end Glob

/-! ### Configured entries -/

namespace Target

/-- **Depth of patterns.** Every file that a pattern gives is led to from the root of the project by
the pieces of the pattern. If none of them can stand for another number of levels than one, the
file lies just as many levels beneath the root as there are pieces. -/
theorem pattern_depth (host : Host) (c : LinterConfig) (root : Path) (entry : String)
    (linter : String) (scope : Scope) (hwell : host.tree.WellFormed)
    (hwild : Glob.hasWildcard entry.toList = true)
    (hpieces : ∀ piece ∈ Text.splitAt '/' entry.toList, Name.IsProper piece) {files : List Path}
    (h : entryFiles? host c root entry = some files) :
    let pieces := Text.splitAt '/' entry.toList
    resolve host { c with targets := [entry] } root linter scope none =
        .ok ((distinct files).map .file) ∧
      ∃ patterns, pieces.mapM Glob.compile? = some patterns ∧ ∀ p ∈ files,
        (∃ cs, Glob.Leads patterns cs ∧ p.trail = (Glob.startOf root).trail ++ cs) ∧
        ((∀ pattern ∈ patterns, pattern.strays = false) →
          p.IsBeneath pieces.length (Glob.startOf root)) := by
  intro pieces
  refine ⟨?_, ?_⟩
  · have hsame : entryFiles? host { c with targets := [entry] } root entry = some files := h
    simp [resolve, configured, hsame]
  rw [entryFiles?, if_pos hwild] at h
  obtain ⟨found, hfound, rfl⟩ := Option.map_eq_some_iff.1 h
  have hterminated : Glob.terminatedPieces entry.toList = pieces := by
    have hlast : pieces.getLast? ≠ some [] := fun hlast =>
      (hpieces [] (List.mem_of_getLast? hlast)).nonempty rfl
    rw [Glob.terminatedPieces, if_neg hlast]
  obtain ⟨patterns, hpatterns⟩ : ∃ patterns, pieces.mapM Glob.compile? = some patterns := by
    rw [← hterminated]
    obtain ⟨patterns, hpatterns, -⟩ := Option.bind_eq_some_iff.1 hfound
    exact ⟨patterns, hpatterns⟩
  have hcompiled := mapM_some_iff.1 hpatterns
  have hsolid : ∀ pattern ∈ patterns, pattern.IsSolid := by
    have hproper := (List.forall₂_and_left _ _).2 ⟨hpieces, hcompiled⟩
    have hback : List.Forall₂ (fun pattern _ => Glob.Pattern.IsSolid pattern ∧ True) patterns
        pieces :=
      .flip (hproper.imp fun _ _ hpiece => ⟨Glob.isSolid_of_compile hpiece.1 hpiece.2, trivial⟩)
    exact ((List.forall₂_and_left _ _).1 hback).1
  refine ⟨patterns, hpatterns, fun p hp => ?_⟩
  obtain ⟨cs, hcs, htrail⟩ := Glob.exists_of_mem_pathsMatching hwell
    (hterminated.symm ▸ hpatterns) hsolid hfound (List.mem_filter.1 hp).1
  refine ⟨⟨cs, hcs, htrail⟩, fun hlevel => ?_⟩
  obtain ⟨ns, rfl, hns, haccepts⟩ := hcs.names hlevel
  exact ⟨ns, haccepts.length_eq.symm.trans hcompiled.length_eq.symm, hns, htrail⟩

/-- A site with scripts at two depths, and a script beside it. -/
def nestedHost : Host where
  tree := .directory [] [.file "x.js".toList [], .directory "site".toList
    [.directory "lib".toList [.file "b.js".toList [],
      .directory "deep".toList [.file "c.js".toList []]]]]
  workingDirectory := []
  pluginHome := none
  noColor := false
  programDirectory := .ofString "/"

lemma nestedHost_wellFormed : nestedHost.tree.WellFormed := by decide

theorem pattern_depth_of_nested :
    let entry := "l[a-z]b/*.js"
    let c := sourceConfig [entry]
    nestedHost.tree.WellFormed ∧ Glob.hasWildcard entry.toList = true ∧
      (∀ piece ∈ Text.splitAt '/' entry.toList, Name.IsProper piece) ∧
      resolve nestedHost c (.ofString "/site") "js" .explicit none =
        .ok [.file (.ofString "/site/lib/b.js")] ∧
      (Path.ofString "/site/lib/b.js").IsBeneath 2 (.ofString "/site") := by
  intro entry c
  have hfiles : entryFiles? nestedHost c (.ofString "/site") entry =
      some [.ofString "/site/lib/b.js"] := by cbv
  have hpieces : ∀ piece ∈ Text.splitAt '/' entry.toList, Name.IsProper piece := by decide
  obtain ⟨hresolve, patterns, hpatterns, hdepth⟩ := pattern_depth nestedHost c (.ofString "/site")
    entry "js" .explicit nestedHost_wellFormed (by decide) hpieces hfiles
  have hlevel : ∀ pattern ∈ patterns, pattern.strays = false := by
    have hcompile : (Text.splitAt '/' entry.toList).mapM Glob.compile? =
        some [.tokens [.char 'l', .oneOf [.range 'a' 'z'], .char 'b'],
          .tokens [.anyText, .char '.', .char 'j', .char 's']] := by cbv
    obtain rfl := Option.some.inj (hpatterns.symm.trans hcompile)
    simp [Glob.Pattern.strays]
  have hbeneath := (hdepth _ (List.mem_singleton.2 rfl)).2 hlevel
  have hstart := @Glob.startOf_ofString "/site" (by decide)
  have hlength : (Text.splitAt '/' entry.toList).length = 2 := by decide
  rw [hstart, hlength] at hbeneath
  exact ⟨nestedHost_wellFormed, by decide, hpieces, hresolve, hbeneath⟩

/-- Two stars reach a file one level deeper than there are pieces, and a pattern that starts with a
dot reaches a file that is not in the site at all. -/
theorem pattern_astray :
    (∀ piece ∈ Text.splitAt '/' "**/c.js".toList, Name.IsProper piece) ∧
      resolve nestedHost (sourceConfig ["**/c.js"]) (.ofString "/site") "js" .explicit none =
        .ok [.file (.ofString "/site/lib/deep/c.js")] ∧
      ¬ (Path.ofString "/site/lib/deep/c.js").IsBeneath 2 (.ofString "/site") ∧
      (∀ piece ∈ Text.splitAt '/' ".*/x.js".toList, Name.IsProper piece) ∧
      resolve nestedHost (sourceConfig [".*/x.js"]) (.ofString "/site") "js" .explicit none =
        .ok [.file (.ofString "/site/../x.js")] ∧
      ∀ levels, ¬ (Path.ofString "/site/../x.js").IsBeneath levels (.ofString "/site") := by
  have hsite : (Path.ofString "/site").trail = [.root, .name "site".toList] := by decide
  have hdeep : (Path.ofString "/site/lib/deep/c.js").trail = [.root, .name "site".toList,
      .name "lib".toList, .name "deep".toList, .name "c.js".toList] := by decide
  have houtside : (Path.ofString "/site/../x.js").trail =
      [.root, .name "site".toList, .up, .name "x.js".toList] := by decide
  refine ⟨by decide, by cbv, ?_, by decide, by cbv, ?_⟩
  · rintro ⟨ns, hlength, -, htrail⟩
    rw [hdeep, hsite] at htrail
    have hlengths := congrArg List.length htrail
    simp [hlength] at hlengths
  · rintro levels ⟨ns, -, -, htrail⟩
    rw [houtside, hsite] at htrail
    cases ns <;> simp at htrail

end Target

end SiteLint
