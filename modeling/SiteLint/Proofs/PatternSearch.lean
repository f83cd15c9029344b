import SiteLint.Proofs.DirectoryLookup
import SiteLint.Proofs.PatternDepth

/-!
Where a search goes when each pattern but the last one stands for one name.

Such patterns lead to one directory, whether they are looked up by name or held against all names
of the directories on the way. There the last pattern is held against the names, in their order.
-/

namespace SiteLint.Glob

variable {host : Host} {dir : Path} {wanted : Path → Bool} {ts : List Token}

/-! ### The last pattern -/

lemma filter_dots {dots : List Name} (hdots : ∀ n ∈ dots, n = [dot] ∨ n = [dot, dot])
    (hdir : dir.bytes ≠ []) (hwanted : ∀ q, wanted q = true → host.isFile q = true) :
    (dots.map fun n => dir.child n).filter wanted = [] := by
  rw [List.filter_eq_nil_iff]
  intro q hq
  obtain ⟨n, hn, rfl⟩ := List.mem_map.1 hq
  intro htaken
  have hfile := hwanted _ htaken
  rw [Host.isFile_child_dots hdir (hdots n hn)] at hfile
  cases hfile

lemma exists_dots (hdir : dir.isAbsolute = true) :
    ∃ dots : List Name,
      (∀ n ∈ dots, (n = [dot] ∨ n = [dot, dot]) ∧ (Pattern.tokens ts).acceptsName n = true) ∧
      meets host (.tokens ts) dir = dots.map (fun n => dir.child n) ++
        ((host.listing dir).filter fun e => (Pattern.tokens ts).acceptsName e.name).map
          fun e => dir.child e.name := by
  have hunder : (fun e : Entry => under dir e.name) = fun e => dir.child e.name :=
    funext fun e => under_eq_child hdir e.name
  unfold meets
  rw [hunder]
  refine ⟨_, fun n hn => ?_, rfl⟩
  split at hn
  · rename_i heq
    cases heq
    obtain ⟨hn, haccepts⟩ := List.mem_filter.1 hn
    exact ⟨by simpa [or_comm] using hn, haccepts⟩
  · cases hn

lemma filter_meets (hdir : dir.isAbsolute = true)
    (hwanted : ∀ q, wanted q = true → host.isFile q = true) :
    (meets host (.tokens ts) dir).filter wanted =
      (((host.listing dir).filter fun e => (Pattern.tokens ts).acceptsName e.name).map
        fun e => dir.child e.name).filter wanted := by
  obtain ⟨dots, hdots, hmeets⟩ := @exists_dots host dir ts hdir
  have hnone := filter_dots (fun n hn => (hdots n hn).1) (Path.bytes_ne_nil_of_isAbsolute hdir)
    hwanted
  rw [hmeets, List.filter_append, hnone, List.nil_append]

lemma search_tokens {onlyDirectories : Bool} {ps : List Pattern}
    (hliteral : (Pattern.tokens ts).literal? = none) :
    search host onlyDirectories (.tokens ts :: ps) dir =
      (meets host (.tokens ts) dir).flatMap fun q => search host onlyDirectories ps q := by
  rw [search]
  simp only [hliteral]

lemma search_last (hliteral : (Pattern.tokens ts).literal? = none) :
    search host false [.tokens ts] dir = meets host (.tokens ts) dir := by
  have hnone : search host false [] = fun q => [q] := by
    funext q
    simp [search]
  rw [search_tokens hliteral, hnone, List.flatMap_singleton']

lemma search_of_not_directory (hliteral : (Pattern.tokens ts).literal? = none)
    (hdir : dir.isAbsolute = true) (hnone : host.isDirectory dir = false)
    (hwanted : ∀ q, wanted q = true → host.isFile q = true) :
    (search host false [.tokens ts] dir).filter wanted = [] := by
  have hempty : host.listing dir = [] := by
    rw [List.eq_nil_iff_forall_not_mem]
    intro e he
    obtain ⟨top, htop, hmem⟩ := Host.mem_listing.1 he
    cases top with
    | file | link => cases hmem
    | directory m es => simp [Host.isDirectory, htop, Entry.isDirectory] at hnone
  rw [search_last hliteral, filter_meets hdir hwanted, hempty]
  rfl

/-! ### Patterns that stand for one name -/

/-- The pattern leads on by one name. -/
inductive StandsFor : Pattern → Name → Prop
  /-- It is looked up by name. -/
  | plain {piece : List Char} (hpiece : '/' ∉ piece) : StandsFor (literal piece) piece
  /-- It is held against the names of the directory and meets this one only. -/
  | quoted {ts : List Token} {n : Name} (hn : n.IsProper)
    (hliteral : (Pattern.tokens ts).literal? = none)
    (hmeets : ∀ m, (Pattern.tokens ts).acceptsName m = true ↔ m = n) : StandsFor (.tokens ts) n

lemma StandsFor.noSlash {p : Pattern} {n : Name} (h : StandsFor p n) : slash ∉ n := by
  cases h with
  | plain hpiece => exact mt Text.Utf8.slash_mem_encode.1 hpiece
  | quoted hn => exact hn.noSlash

lemma noSlash_of_standing {ps : List Pattern} {ns : List Name} (h : List.Forall₂ StandsFor ps ns) :
    ∀ n ∈ ns, slash ∉ n := by
  induction h with
  | nil => exact List.forall_mem_nil _
  | cons hp _ ih => exact List.forall_mem_cons.2 ⟨hp.noSlash, ih⟩

lemma standsFor_literals {pieces : List (List Char)} (hpieces : ∀ piece ∈ pieces, '/' ∉ piece) :
    List.Forall₂ StandsFor (pieces.map literal) (pieces.map Text.Utf8.encode) := by
  rw [List.forall₂_map_left_iff, List.forall₂_map_right_iff, List.forall₂_same]
  exact fun piece hpiece => .plain (hpieces piece hpiece)

lemma filter_name_eq {es : List Entry} {e : Entry} (hdistinct : (es.map Entry.name).Nodup)
    (he : e ∈ es) : (es.filter fun d => d.name = e.name) = [e] := by
  induction es with
  | nil => cases he
  | cons d es ih =>
    rw [List.map_cons, List.nodup_cons] at hdistinct
    rcases List.mem_cons.1 he with rfl | he
    · have hothers : ∀ d ∈ es, d.name ≠ e.name := fun d hd heq =>
        hdistinct.1 (heq ▸ List.mem_map_of_mem hd)
      rw [List.filter_cons_of_pos (by simp), List.filter_eq_nil_iff.2 (by simpa using hothers)]
    · have hne : d.name ≠ e.name := fun heq => hdistinct.1 (heq ▸ List.mem_map_of_mem he)
      rw [List.filter_cons_of_neg (by simpa using hne), ih hdistinct.2 he]

lemma meets_quoted (hwell : host.tree.WellFormed) (hdir : dir.isAbsolute = true) {n : Name}
    (hn : n.IsProper) (hmeets : ∀ m, (Pattern.tokens ts).acceptsName m = true ↔ m = n) :
    meets host (.tokens ts) dir =
      if ∃ e ∈ host.listing dir, e.name = n then [dir.child n] else [] := by
  obtain ⟨dots, hdots, heq⟩ := @exists_dots host dir ts hdir
  have hnodots : dots = [] := by
    rw [List.eq_nil_iff_forall_not_mem]
    intro m hm
    obtain ⟨hm, hmatches⟩ := hdots m hm
    obtain rfl := (hmeets m).1 hmatches
    exact hm.elim hn.notHere hn.notUp
  have hnames : ((host.listing dir).filter fun e => (Pattern.tokens ts).acceptsName e.name) =
      (host.listing dir).filter fun e => e.name = n := by
    refine List.filter_congr fun e _ => ?_
    rw [Bool.eq_iff_iff, hmeets, decide_eq_true_iff]
  rw [heq, hnodots, hnames, List.map_nil, List.nil_append]
  split
  · rename_i hlisted
    obtain ⟨e, he, rfl⟩ := hlisted
    rw [filter_name_eq (Host.nodup_listing hwell dir) he]
    rfl
  · rename_i hlisted
    have hempty : ((host.listing dir).filter fun e => e.name = n) = [] := by
      rw [List.filter_eq_nil_iff]
      exact fun e he heq => hlisted ⟨e, he, by simpa using heq⟩
    rw [hempty]
    rfl

/-- A pattern that stands for a name leads a search on by it. When no directory is there it may lead
nowhere, but then there is nothing to be found. -/
lemma search_step (hwell : host.tree.WellFormed) (hdir : dir.isAbsolute = true) {p : Pattern}
    {n : Name} {ps : List Pattern} (hp : StandsFor p n)
    (hnothing : host.isDirectory (dir.child n) = false →
      (search host false ps (dir.child n)).filter wanted = []) :
    (search host false (p :: ps) dir).filter wanted =
      (search host false ps (dir.child n)).filter wanted := by
  have hbytes := Path.bytes_ne_nil_of_isAbsolute hdir
  cases hp with
  | @plain piece hpiece =>
    have hn : slash ∉ Text.Utf8.encode piece := mt Text.Utf8.slash_mem_encode.1 hpiece
    have hreached (hdirectory : host.isDirectory (dir.child piece) = true) :
        (if isDots piece then host.isDirectory dir
          else (host.entry (dir.child piece) false).isOk) = true := by
      split
      · exact Host.isDirectory_of_child hbytes hn hdirectory
      · obtain ⟨e, he, -⟩ := Host.isDirectory_iff.1 hdirectory
        exact Host.isOk_entry_without he
    rw [search_literal, under_eq_child hdir]
    by_cases hcheck : (if isDots piece then host.isDirectory dir
        else (host.entry (dir.child piece) false).isOk) = true
    · rw [if_pos hcheck]
    · rw [if_neg hcheck, hnothing (Bool.eq_false_iff.2 (mt hreached hcheck))]
      rfl
  | quoted hn hquoted hmeets =>
    rw [search_tokens hquoted, meets_quoted hwell hdir hn hmeets]
    split
    · rw [List.flatMap_singleton]
    · rename_i hlisted
      refine (hnothing (Bool.eq_false_iff.2 fun hdirectory => hlisted ?_)).symm
      obtain ⟨e, he, -⟩ := Host.isDirectory_iff.1 hdirectory
      exact Host.exists_listed_of_child hbytes hn he

/-- **A search through names** ends in the directory that the names lead to. -/
lemma search_standing (hwell : host.tree.WellFormed)
    (hliteral : (Pattern.tokens ts).literal? = none) (hdir : dir.isAbsolute = true)
    (hwanted : ∀ q, wanted q = true → host.isFile q = true) {ps : List Pattern} {ns : List Name}
    (h : List.Forall₂ StandsFor ps ns) :
    (search host false (ps ++ [.tokens ts]) dir).filter wanted =
      (search host false [.tokens ts] (dir.descend ns)).filter wanted := by
  induction h generalizing dir with
  | nil => rfl
  | @cons p n ps ns hp hrest ih =>
    have hnext := Path.isAbsolute_child hdir n
    rw [Path.descend_cons, List.cons_append, ← ih hnext]
    refine search_step hwell hdir hp fun hnone => ?_
    rw [ih hnext]
    -- what is no directory has none below it, and so nothing for the last pattern
    have hbelow := mt (Host.isDirectory_of_descend hnext (noSlash_of_standing hrest))
      (Bool.eq_false_iff.1 hnone)
    exact search_of_not_directory hliteral (Path.isAbsolute_descend hnext _)
      (Bool.eq_false_iff.2 hbelow) hwanted

/-! ### Texts of paths -/

lemma isText_of_acceptsName {p : Pattern} {n : Name} (h : p.acceptsName n = true) : n.IsText := by
  obtain ⟨cs, hcs, -⟩ := acceptsName_iff.1 h
  exact ⟨cs, hcs⟩

lemma isText_under {n : Name} (hdir : dir.IsText) (hn : n.IsText) : (under dir n).IsText := by
  unfold under
  split
  · exact Path.isText_iff.2 hn
  · exact hdir.child hn

lemma isText_of_mem_meets {p : Pattern} {q : Path} (hdir : dir.IsText) (h : q ∈ meets host p dir) :
    q.IsText := by
  simp only [meets, List.mem_append, List.mem_map] at h
  rcases h with ⟨n, hn, rfl⟩ | ⟨e, he, rfl⟩
  · split at hn
    · exact hdir.child (isText_of_acceptsName (List.mem_filter.1 hn).2)
    · cases hn
  · exact isText_under hdir (isText_of_acceptsName (List.mem_filter.1 he).2)

/-- Pattern by pattern a search goes on from text to text; only to any depth it passes other names. -/
lemma isText_of_mem_search {onlyDirectories : Bool} {ps : List Pattern} {q : Path}
    (hps : ∀ p ∈ ps, p ≠ .anyDepth) (hdir : dir.IsText)
    (h : q ∈ search host onlyDirectories ps dir) : q.IsText := by
  fun_induction search host onlyDirectories ps dir with
  | case1 | case6 => cases h
  | case2 here =>
    obtain rfl : q = here := by simpa using h
    exact hdir
  | case3 | case4 => exact absurd rfl (hps .anyDepth List.mem_cons_self)
  | case5 ts rest dir piece hpiece n next hthere ih =>
    rw [List.forall_mem_cons] at hps
    exact ih hps.2 (isText_under hdir ⟨piece, rfl⟩) h
  | case7 dir rest ts hnone ih =>
    obtain ⟨d, hd, hq⟩ := List.mem_flatMap.1 h
    rw [List.forall_mem_cons] at hps
    exact ih d hps.2 (isText_of_mem_meets hdir hd) hq

/-! ### Texts of patterns -/

lemma mergeDepths_eq_self {ps : List Pattern} (h : ∀ p ∈ ps, p ≠ .anyDepth) :
    mergeDepths ps = ps := by
  fun_induction mergeDepths ps with
  | case1 => exact absurd rfl (h _ List.mem_cons_self)
  | case2 p ps _ ih => rw [ih (List.forall_mem_cons.1 h).2]
  | case3 => rfl

lemma tokenize_cons {c : Char} (hc : isWildcard c = false) (cs : List Char) :
    tokenize (c :: cs) = (tokenize cs).map (Token.char c :: ·) := by
  obtain ⟨⟨hstar, hany⟩, hset⟩ : (c ≠ '*' ∧ c ≠ '?') ∧ c ≠ '[' := by simpa [isWildcard] using hc
  rw [tokenize]
  · exact hany
  · exact fun _ h => absurd h hstar
  · exact hstar
  · exact fun _ h => absurd h hset
  · exact hset

lemma literal_eq_none {cs : List Char} {ts : List Token} (hwild : hasWildcard cs = true)
    (h : compile? cs = some (.tokens ts)) : (Pattern.tokens ts).literal? = none := by
  unfold compile? at h
  split at h
  · cases h
  · obtain ⟨_, hts, heq⟩ := Option.map_eq_some_iff.1 h
    cases heq
    rw [Option.eq_none_iff_forall_ne_some]
    intro n hn
    rw [tokens_of_literal hn] at hts
    rw [(eq_of_tokenize hts).2] at hwild
    cases hwild

lemma compile_plain {n : List Char} (h : hasWildcard n = false) :
    compile? n = some (literal n) := by
  have htokens : tokenize n = some (n.map .char) := by
    induction n with
    | nil => simp [tokenize]
    | cons c n ih =>
      rw [hasWildcard_cons, Bool.or_eq_false_iff] at h
      rw [tokenize_cons h.1, ih h.2]
      rfl
  have hstars : n ≠ ['*', '*'] := by
    rintro rfl
    cases h
  rw [compile?, if_neg hstars, htokens]
  rfl

/-! ### From the root of a project -/

/-- The pieces of the text of an absolute root, without slashes at its end. -/
def rootPieces (root : Path) : List (List Char) :=
  let base := (root.toString.toList.reverse.dropWhile (· = '/')).reverse
  if base = [] then [] else Text.splitAt '/' base.tail

/-- The pieces of an absolute path, without slashes at its end. -/
def pathPieces (p : Path) : List Name :=
  let base := (p.bytes.reverse.dropWhile (· = slash)).reverse
  if base = [] then [] else Text.splitAt slash base.tail

variable {root p : Path}

lemma notMem_rootPieces {piece : List Char} (h : piece ∈ rootPieces root) : '/' ∉ piece := by
  unfold rootPieces at h
  dsimp only at h
  split at h
  · cases h
  · exact Text.notMem_of_mem_splitAt h

/-- The pieces that are looked up are those of the path that the text of the root writes. -/
lemma encode_rootPieces (hroot : root.isAbsolute = true) :
    (rootPieces root).map Text.Utf8.encode = pathPieces root.reread := by
  obtain ⟨k, hk⟩ := exists_trailing '/' root.toString.toList
  have hslash := Path.head_toString.2 hroot
  have htrim := Text.Utf8.encode_trim root.toString.toList
  unfold rootPieces pathPieces
  rw [Path.reread, Path.ofString, ← htrim]
  generalize (root.toString.toList.reverse.dropWhile (· = '/')).reverse = base at hk
  cases base with
  | nil => rfl
  | cons c base =>
    obtain rfl : c = '/' := by simpa [hk] using hslash
    have htail : Text.Utf8.encode ('/' :: base) = slash :: Text.Utf8.encode base := rfl
    rw [if_neg (List.cons_ne_nil _ _), htail, if_neg (List.cons_ne_nil _ _), List.tail_cons,
      List.tail_cons, Text.Utf8.splitAt_encode]

lemma bytes_eq_pathPieces (hp : p.isAbsolute = true) :
    ∃ k, p.bytes = slash :: Text.glue slash (pathPieces p) ++ List.replicate k slash := by
  obtain ⟨k, hk⟩ := exists_trailing slash p.bytes
  unfold pathPieces
  generalize (p.bytes.reverse.dropWhile (· = slash)).reverse = base at hk
  cases base with
  | nil =>
    cases k with
    | zero => exact absurd hk (Path.bytes_ne_nil_of_isAbsolute hp)
    | succ k => exact ⟨k, hk⟩
  | cons b base =>
    obtain rfl : b = slash := by simpa [Path.isAbsolute, hk] using hp
    refine ⟨k, ?_⟩
    rw [hk, if_neg (List.cons_ne_nil _ _), List.tail_cons, Text.glue_splitAt]

lemma getLast_pathPieces (hp : p.isAbsolute = true) (hne : pathPieces p ≠ []) :
    (slash :: Text.glue slash (pathPieces p)).getLast? ≠ some slash := by
  obtain ⟨k, hk⟩ := exists_trailing slash p.bytes
  have hlast := List.rdropWhile_last_not (fun b => decide (b = slash)) p.bytes
  unfold List.rdropWhile at hlast
  unfold pathPieces at hne ⊢
  generalize (p.bytes.reverse.dropWhile (· = slash)).reverse = base at hk hne hlast
  cases base with
  | nil => exact absurd rfl hne
  | cons b base =>
    obtain rfl : b = slash := by simpa [Path.isAbsolute, hk] using hp
    rw [if_neg (List.cons_ne_nil _ base), List.tail_cons, Text.glue_splitAt,
      List.getLast?_eq_some_getLast (List.cons_ne_nil _ base)]
    simpa using hlast (List.cons_ne_nil _ base)

lemma notMem_pathPieces {n : Name} (h : n ∈ pathPieces p) : slash ∉ n := by
  unfold pathPieces at h
  dsimp only at h
  split at h
  · cases h
  · exact Text.notMem_of_mem_splitAt h

lemma filter_pathPieces (hp : p.isAbsolute = true) :
    (pathPieces p).filter (· ≠ []) = p.solidPieces := by
  obtain ⟨k, hk⟩ := bytes_eq_pathPieces hp
  have hplain := Path.solidPieces_ofLocation fun _ => @notMem_pathPieces p _
  rw [← hplain, Path.ofLocation, ← Path.solidPieces_append_slashes _ k, ← hk]

lemma pathPieces_ofLocation {location : List Name} (h : ∀ n ∈ location, n.IsProper) :
    pathPieces (.ofLocation location) = location := by
  rcases List.eq_nil_or_concat' location with rfl | ⟨above, n, rfl⟩
  · rfl
  · have hn := h n (by simp)
    have htrim : ((Path.ofLocation (above ++ [n])).bytes.reverse.dropWhile (· = slash)).reverse =
        (Path.ofLocation (above ++ [n])).bytes := Text.trim_glue hn.nonempty hn.noSlash
    unfold pathPieces
    rw [htrim]
    exact Text.splitAt_glue (by simp) fun m hm => (h m hm).noSlash

lemma pathsMatching_absolute {entry : List Char} {patterns : List Pattern}
    (hroot : root.isAbsolute = true)
    (hpatterns : (terminatedPieces entry).mapM compile? = some patterns)
    (hend : entry.getLast? ≠ some '/') :
    pathsMatching? host root entry =
      some (search host false (mergeDepths ((rootPieces root).map literal ++ patterns))
        ⟨[slash]⟩) := by
  obtain ⟨k, hk⟩ := exists_trailing '/' root.toString.toList
  have hslash := Path.head_toString.2 hroot
  simp only [pathsMatching?, hpatterns, Option.bind_eq_bind, Option.bind_some, rootPieces, hend,
    decide_false]
  generalize (root.toString.toList.reverse.dropWhile (· = '/')).reverse = base at hk
  cases base with
  | nil => rfl
  | cons c base =>
    obtain rfl : c = '/' := by simpa [hk] using hslash
    rfl

end SiteLint.Glob
