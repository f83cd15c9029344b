import SiteLint.Proofs.PatternSearch

/-!
Patterns with one piece, in a directory with any name.

The text that is searched for is that of the root, in which every character stands for itself, with
the pattern behind it. To this end characters with a meaning of their own are put into brackets. A
search by that text gives the same files as one that looks the names of the root up: those directly
in the root that match, in the order of their names.
-/

namespace SiteLint

namespace Glob

/-! ### Quoted text -/

/-- A character that stands for itself, whatever meaning it has in patterns. The exclamation mark
and the hyphen have one in brackets only. -/
def quote (c : Char) : List Char :=
  if c = '?' ∨ c = '*' ∨ c = '[' ∨ c = ']' then ['[', c, ']'] else [c]

/-- A text that stands for itself. -/
def escape (cs : List Char) : List Char := cs.flatMap quote

/-- What a quoted character is read as. -/
def quoted (c : Char) : Token :=
  if c = '?' ∨ c = '*' ∨ c = '[' ∨ c = ']' then .oneOf [.one c] else .char c

lemma escape_cons (c : Char) (cs : List Char) : escape (c :: cs) = quote c ++ escape cs :=
  List.flatMap_cons

lemma escape_append (as bs : List Char) : escape (as ++ bs) = escape as ++ escape bs :=
  List.flatMap_append

lemma accepts_quoted {c x : Char} : (quoted c).accepts x = true ↔ x = c := by
  unfold quoted
  split <;> simp [Token.accepts, Span.holds]

lemma quoted_ne_anyText (c : Char) : quoted c ≠ .anyText := by
  unfold quoted
  split <;> exact Token.noConfusion

lemma tokenize_quote (c : Char) (cs : List Char) :
    tokenize (quote c ++ cs) = (tokenize cs).map (quoted c :: ·) := by
  unfold quote quoted
  split
  · rename_i hc
    have hset : splitSet (c :: ']' :: cs) = some ([c], cs) := by simp [splitSet]
    have hnot : ∀ rest, c :: ']' :: cs ≠ '!' :: rest := by
      rintro rest heq
      rcases hc with rfl | rfl | rfl | rfl <;> cases heq
    have htokens : tokenize ('[' :: c :: ']' :: cs) =
        (tokenize cs).map (Token.oneOf (spans [c]) :: ·) := by
      rw [tokenize]
      · split
        · rename_i set rest hsplit
          obtain ⟨rfl, rfl⟩ : [c] = set ∧ cs = rest := by simpa [hset] using hsplit
          rfl
        · rename_i hsplit
          rw [hset] at hsplit
          cases hsplit
      · exact hnot
    exact htokens
  · rename_i hc
    have hplain : isWildcard c = false := by
      simp only [not_or] at hc
      simp [isWildcard, hc]
    exact tokenize_cons hplain cs

lemma tokenize_escape (n : List Char) : tokenize (escape n) = some (n.map quoted) := by
  induction n with
  | nil => simp [escape, tokenize]
  | cons c n ih =>
    rw [escape_cons, tokenize_quote, ih]
    rfl

lemma compile_escape (n : List Char) : compile? (escape n) = some (.tokens (n.map quoted)) := by
  have hstars : escape n ≠ ['*', '*'] := by
    intro h
    have htokens := tokenize_escape n
    rw [h] at htokens
    simp [tokenize] at htokens
  rw [compile?, if_neg hstars, tokenize_escape]
  rfl

lemma matchesAll_quoted (n m : List Char) : matchesAll (n.map quoted) m = true ↔ m = n := by
  induction n generalizing m with
  | nil => cases m <;> simp [matchesAll]
  | cons c n ih =>
    have hstep (x : Char) (xs : List Char) : matchesAll (quoted c :: n.map quoted) (x :: xs) =
        ((quoted c).accepts x && matchesAll (n.map quoted) xs) := by
      rw [matchesAll]
      exact quoted_ne_anyText c
    cases m with
    | nil =>
      rw [List.map_cons, matchesAll]
      · simp
      · exact quoted_ne_anyText c
    | cons x xs =>
      rw [List.map_cons, hstep, Bool.and_eq_true, accepts_quoted, ih, List.cons.injEq]

lemma acceptsName_quoted (cs : List Char) (m : Name) :
    (Pattern.tokens (cs.map quoted)).acceptsName m = true ↔ m = Text.Utf8.encode cs := by
  rw [acceptsName_iff]
  constructor
  · rintro ⟨ds, rfl, haccepts⟩
    rw [(matchesAll_quoted cs ds).1 haccepts]
  · exact fun h => ⟨cs, h, (matchesAll_quoted cs cs).2 rfl⟩

lemma standsFor_quoted {cs : List Char} (hcs : Name.IsProper cs) :
    StandsFor (.tokens (cs.map quoted)) cs := by
  cases hliteral : (Pattern.tokens (cs.map quoted)).literal? with
  | none => exact .quoted hcs hliteral (acceptsName_quoted cs)
  | some ds =>
    obtain rfl := (matchesAll_quoted cs ds).1 (accepts_of_literal hliteral)
    rw [tokens_of_literal hliteral]
    exact .plain (mt Text.Utf8.slash_mem_encode.2 hcs.noSlash)

lemma standsFor_escaped {pieces : List (List Char)} (hpieces : ∀ cs ∈ pieces, Name.IsProper cs) :
    List.Forall₂ StandsFor (pieces.map fun cs => .tokens (cs.map quoted))
      (pieces.map Text.Utf8.encode) := by
  rw [List.forall₂_map_left_iff, List.forall₂_map_right_iff, List.forall₂_same]
  exact fun cs hcs => standsFor_quoted (hpieces cs hcs)

lemma noSlash_escape {n : List Char} (hn : '/' ∉ n) : '/' ∉ escape n := by
  intro h
  obtain ⟨c, hc, hslash⟩ := List.mem_flatMap.1 h
  unfold quote at hslash
  split at hslash
  · obtain rfl : '/' = c := by simpa using hslash
    exact hn hc
  · obtain rfl : '/' = c := by simpa using hslash
    exact hn hc

lemma escape_ne_nil {n : List Char} (hn : n ≠ []) : escape n ≠ [] := by
  obtain ⟨c, n, rfl⟩ := List.exists_cons_of_ne_nil hn
  rw [escape_cons]
  unfold quote
  split <;> simp

lemma escape_glue (pieces : List (List Char)) :
    escape (Text.glue '/' pieces) = Text.glue '/' (pieces.map escape) := by
  induction pieces with
  | nil => rfl
  | cons cs pieces ih =>
    cases pieces with
    | nil => rfl
    | cons ds pieces =>
      have hslash : quote '/' = ['/'] := by decide
      rw [List.map_cons, Text.glue_cons (List.cons_ne_nil ds pieces), escape_append, escape_cons, ih,
        hslash, List.map_cons, Text.glue_cons (List.cons_ne_nil _ _)]
      rfl

lemma exists_tokens {cs : List Char} {p : Pattern} (hstars : cs ≠ ['*', '*'])
    (h : compile? cs = some p) : ∃ ts, p = .tokens ts := by
  rw [compile?, if_neg hstars] at h
  obtain ⟨ts, -, rfl⟩ := Option.map_eq_some_iff.1 h
  exact ⟨ts, rfl⟩

/-! ### A pattern behind a quoted root -/

/-- The text that is searched for: that of the root, without slashes at its end, and the pattern
behind it. -/
def splice (root : Path) (entry : List Char) : List Char :=
  ((escape root.toString.toList).reverse.dropWhile (· = '/')).reverse ++ '/' :: entry

/-- The paths that match the text of a pattern from the top, or nothing when it is none. -/
def pathsOf? (host : Host) (text : List Char) : Option (List Path) := do
  let patterns ← (terminatedPieces text.tail).mapM compile?
  some (search host (decide (text.getLast? = some '/')) (mergeDepths patterns) ⟨[slash]⟩)

variable {host : Host} {pieces : List (List Char)} {entry : List Char} {ts : List Token}

/-- The path from the top by the names that some texts are stored as. -/
def ofTexts (pieces : List (List Char)) : Path := .ofLocation (pieces.map Text.Utf8.encode)

lemma bytes_ofTexts (pieces : List (List Char)) :
    (ofTexts pieces).bytes = Text.Utf8.encode ('/' :: Text.glue '/' pieces) := by
  rw [Text.Utf8.encode_cons, Text.encode_glue]
  rfl

lemma isAbsolute_ofTexts (pieces : List (List Char)) : (ofTexts pieces).isAbsolute = true :=
  Path.isAbsolute_ofLocation _

lemma splice_ofTexts (hpieces : ∀ cs ∈ pieces, Name.IsProper cs) :
    splice (ofTexts pieces) entry = '/' :: Text.glue '/' (pieces.map escape ++ [entry]) := by
  have hslash : quote '/' = ['/'] := by decide
  have hescape : escape (ofTexts pieces).toString.toList =
      '/' :: Text.glue '/' (pieces.map escape) := by
    rw [Path.toString, bytes_ofTexts, Text.Utf8.lenientText_encode, String.toList_ofList, escape_cons,
      escape_glue, hslash]
    rfl
  rw [splice, hescape]
  rcases List.eq_nil_or_concat' pieces with rfl | ⟨above, cs, rfl⟩
  · rfl
  · have hcs := hpieces cs (by simp)
    have hne : cs ≠ [] := mt Text.Utf8.encode_eq_nil.2 hcs.nonempty
    have hnone : '/' ∉ cs := mt Text.Utf8.slash_mem_encode.2 hcs.noSlash
    have htext : '/' :: Text.glue '/' ((above ++ [cs]).map escape) ++ '/' :: entry =
        '/' :: Text.glue '/' ((above ++ [cs]).map escape ++ [entry]) := by
      rw [Text.glue_append (by simp) (List.cons_ne_nil entry [])]
      rfl
    rw [← htext, List.map_append, List.map_singleton,
      Text.trim_glue (escape_ne_nil hne) (noSlash_escape hnone)]

lemma terminatedPieces_glue (hpieces : ∀ cs ∈ pieces, '/' ∉ cs) (hentry : '/' ∉ entry)
    (hne : entry ≠ []) :
    terminatedPieces (Text.glue '/' (pieces ++ [entry])) = pieces ++ [entry] := by
  have hall : ∀ cs ∈ pieces ++ [entry], '/' ∉ cs := by
    rw [List.forall_mem_append, List.forall_mem_singleton]
    exact ⟨hpieces, hentry⟩
  rw [terminatedPieces, Text.splitAt_glue (by simp) hall]
  simp [hne]

lemma pathsOf_splice (hpieces : ∀ cs ∈ pieces, Name.IsProper cs) (hentry : '/' ∉ entry)
    (hne : entry ≠ []) (hcompile : compile? entry = some (.tokens ts)) :
    pathsOf? host (splice (ofTexts pieces) entry) =
      some (search host false
        (pieces.map (fun cs => .tokens (cs.map quoted)) ++ [.tokens ts]) ⟨[slash]⟩) := by
  have hescaped : ∀ cs ∈ pieces.map escape, '/' ∉ cs := by
    rw [List.forall_mem_map]
    exact fun cs hcs => noSlash_escape (mt Text.Utf8.slash_mem_encode.2 (hpieces cs hcs).noSlash)
  have hpatterns : (pieces.map escape ++ [entry]).mapM compile? =
      some (pieces.map (fun cs => .tokens (cs.map quoted)) ++ [.tokens ts]) := by
    rw [mapM_some_iff]
    refine List.rel_append ?_ (.cons hcompile .nil)
    rw [List.forall₂_map_left_iff, List.forall₂_map_right_iff, List.forall₂_same]
    exact fun cs _ => compile_escape cs
  have hmerge : mergeDepths (pieces.map (fun cs => .tokens (cs.map quoted)) ++ [.tokens ts]) =
      pieces.map (fun cs => .tokens (cs.map quoted)) ++ [.tokens ts] := by
    refine mergeDepths_eq_self fun p hp => ?_
    rcases List.mem_append.1 hp with hp | hp
    · obtain ⟨cs, -, rfl⟩ := List.mem_map.1 hp
      exact Pattern.noConfusion
    · obtain rfl := List.mem_singleton.1 hp
      exact Pattern.noConfusion
  have hslash := @Text.getLast_glue _ _ (pieces.map escape) entry hne hentry
  rw [pathsOf?, splice_ofTexts hpieces, List.tail_cons,
    terminatedPieces_glue hescaped hentry hne, hpatterns]
  simp [hmerge, hslash]

lemma rootPieces_ofTexts (hpieces : ∀ cs ∈ pieces, Name.IsProper cs) :
    rootPieces (ofTexts pieces) = pieces := by
  have htext : (ofTexts pieces).IsText := Path.isText_iff.2 ⟨_, bytes_ofTexts pieces⟩
  have hproper : ∀ n ∈ pieces.map Text.Utf8.encode, Name.IsProper n := List.forall_mem_map.2 hpieces
  refine List.map_injective_iff.2 Text.Utf8.encode_injective ?_
  rw [encode_rootPieces (isAbsolute_ofTexts pieces), Path.reread_eq_iff.2 htext]
  exact pathPieces_ofLocation hproper

lemma pathsMatching_ofTexts (hpieces : ∀ cs ∈ pieces, Name.IsProper cs) (hentry : '/' ∉ entry)
    (hne : entry ≠ []) (hcompile : compile? entry = some (.tokens ts)) :
    pathsMatching? host (ofTexts pieces) entry =
      some (search host false (pieces.map literal ++ [.tokens ts]) ⟨[slash]⟩) := by
  have hterminated : terminatedPieces entry = [entry] :=
    @terminatedPieces_glue [] entry (List.forall_mem_nil _) hentry hne
  have hpatterns : (terminatedPieces entry).mapM compile? = some [.tokens ts] := by
    rw [hterminated, mapM_some_iff]
    exact .cons hcompile .nil
  have hend : entry.getLast? ≠ some '/' := fun h => hentry (List.mem_of_getLast? h)
  rw [pathsMatching_absolute (isAbsolute_ofTexts pieces) hpatterns hend,
    rootPieces_ofTexts hpieces, mergeDepths_literals]
  rfl

end Glob

namespace Target

/-- The names in a directory that match a pattern and lead to files of the linter's, in order. -/
def matching (host : Host) (c : LinterConfig) (dir : Path) (p : Glob.Pattern) : List Name :=
  ((host.listing dir).map Entry.name).filter fun n =>
    p.acceptsName n && (host.isFile (dir.child n) && c.accepts (dir.child n))

variable {host : Host} {c : LinterConfig} {location : List Name} {ts : List Glob.Token}

lemma filter_search_root (hwell : host.tree.WellFormed) (hroot : ∀ n ∈ location, n.IsProper)
    (hliteral : (Glob.Pattern.tokens ts).literal? = none) {ps : List Glob.Pattern}
    (hps : List.Forall₂ Glob.StandsFor ps location) :
    (Glob.search host false (ps ++ [.tokens ts]) ⟨[slash]⟩).filter
        (fun q => host.isFile q && c.accepts q) =
      (matching host c (.ofLocation location) (.tokens ts)).map (Path.ofLocation location).child := by
  have hwanted : ∀ q, (host.isFile q && c.accepts q) = true → host.isFile q = true :=
    fun q hq => (Bool.and_eq_true_iff.1 hq).1
  have hnames : ∀ n ∈ location, n ≠ [] ∧ slash ∉ n :=
    fun n hn => ⟨(hroot n hn).nonempty, (hroot n hn).noSlash⟩
  rw [Glob.search_standing hwell hliteral rfl hwanted hps, Path.descend_top hnames,
    Glob.search_last hliteral, Glob.filter_meets (Path.isAbsolute_ofLocation _) hwanted, matching]
  simp only [List.filter_map, List.map_map, List.filter_filter, Function.comp_def]
  refine congrArg (List.map _) (List.filter_congr fun e _ => ?_)
  rw [Bool.and_comm]

lemma entryFiles_root {pieces : List (List Char)} {entry : String} (hwell : host.tree.WellFormed)
    (hpieces : ∀ cs ∈ pieces, Name.IsProper cs) (hwild : Glob.hasWildcard entry.toList = true)
    (hentry : '/' ∉ entry.toList) (hcompile : Glob.compile? entry.toList = some (.tokens ts)) :
    entryFiles? host c (Glob.ofTexts pieces) entry =
      some ((matching host c (Glob.ofTexts pieces) (.tokens ts)).map (Glob.ofTexts pieces).child) := by
  have hne : entry.toList ≠ [] := by
    intro hempty
    rw [hempty] at hwild
    cases hwild
  have hplain := Glob.standsFor_literals fun cs hcs =>
    mt Text.Utf8.slash_mem_encode.2 (hpieces cs hcs).noSlash
  rw [entryFiles?, if_pos hwild, Glob.pathsMatching_ofTexts hpieces hentry hne hcompile,
    Option.map_some, filter_search_root hwell (List.forall_mem_map.2 hpieces)
      (Glob.literal_eq_none hwild hcompile) hplain, Glob.ofTexts]

lemma pathsOf_root {pieces : List (List Char)} {entry : String} (hwell : host.tree.WellFormed)
    (hpieces : ∀ cs ∈ pieces, Name.IsProper cs) (hwild : Glob.hasWildcard entry.toList = true)
    (hentry : '/' ∉ entry.toList) (hcompile : Glob.compile? entry.toList = some (.tokens ts)) :
    (Glob.pathsOf? host (Glob.splice (Glob.ofTexts pieces) entry.toList)).map
        (fun ps => ps.filter fun q => host.isFile q && c.accepts q) =
      some ((matching host c (Glob.ofTexts pieces) (.tokens ts)).map (Glob.ofTexts pieces).child) := by
  have hne : entry.toList ≠ [] := by
    intro hempty
    rw [hempty] at hwild
    cases hwild
  rw [Glob.pathsOf_splice hpieces hentry hne hcompile, Option.map_some,
    filter_search_root hwell (List.forall_mem_map.2 hpieces)
      (Glob.literal_eq_none hwild hcompile) (Glob.standsFor_escaped hpieces), Glob.ofTexts]

lemma isFile_child_iff {root : Path} {top : Entry} {n : Name} (hroot : root.bytes ≠ [])
    (htop : host.entry root true = .ok top) (hfit : n.Fits) (hn : n.IsProper) :
    host.isFile (root.child n) = true ↔
      host.LeadsToFile (root.child n) ∧ (root.child n).bytes.length < Path.limit := by
  obtain ⟨l, hl, -⟩ := Host.entry_eq_ok.1 htop
  have hnul := (Host.locate_eq_ok_iff.1 hl).1.noNul
  have hchild : 0 ∉ (root.child n).bytes :=
    @Path.notMem_descend _ [n] _ hroot (by decide) hnul (by simpa using hn)
      (by simpa using hfit.noNul)
  rw [Host.isFile_iff]
  exact ⟨fun h => ⟨h.1, h.2.2.2⟩, fun h => ⟨h.1, hchild, Path.bytes_child_ne_nil hroot hn, h.2⟩⟩

/-- **A pattern with one piece**, in a root whose names are texts, gives just those files directly in
the root that the linter handles and whose names are texts that match, in the order of their names as
they are stored. The root may have any such name: the search goes by a text in which the root is
quoted, and finds the same. Where names can be stored, the files are those that the names lead to,
links followed, by paths that are short enough to be looked up. -/
theorem root_pattern_exact (host : Host) (c : LinterConfig) (location : List Name)
    (entry : String) (p : Glob.Pattern) (hwell : host.tree.WellFormed)
    (hroot : ∀ n ∈ location, n.IsProper ∧ n.IsText)
    (hwild : Glob.hasWildcard entry.toList = true) (hentry : '/' ∉ entry.toList)
    (hstars : entry ≠ "**") (hcompile : Glob.compile? entry.toList = some p) :
    let root := Path.ofLocation location
    ∃ ns : List Name,
      entryFiles? host c root entry = some (ns.map root.child) ∧
      (Glob.pathsOf? host (Glob.splice root entry.toList)).map
        (fun ps => ps.filter fun q => host.isFile q && c.accepts q) = some (ns.map root.child) ∧
      ns.Pairwise (· < ·) ∧
      (∀ n, n ∈ ns ↔ (∃ top, host.entry root true = .ok top ∧ ∃ e ∈ top.entries, e.name = n) ∧
        (∃ cs, n = Text.Utf8.encode cs ∧ p.accepts cs = true) ∧
        host.isFile (root.child n) = true ∧ c.accepts (root.child n) = true) ∧
      (∀ n ∈ ns, n.IsProper ∧ (root.child n).components = root.components ++ [.name n]) ∧
      ∀ n : Name, n.Fits → n.IsProper → (∃ top, host.entry root true = .ok top) →
        (host.isFile (root.child n) = true ↔
          host.LeadsToFile (root.child n) ∧ (root.child n).bytes.length < Path.limit) := by
  intro root
  have hproper : ∀ n ∈ location, n.IsProper := fun n hn => (hroot n hn).1
  obtain ⟨pieces, rfl⟩ : ∃ pieces : List (List Char), location = pieces.map Text.Utf8.encode :=
    ⟨_, (Name.encode_lenientText fun n hn => (hroot n hn).2).symm⟩
  have hpieces : ∀ cs ∈ pieces, Name.IsProper cs := List.forall_mem_map.1 hproper
  have hbytes := Path.bytes_ne_nil_of_isAbsolute (Glob.isAbsolute_ofTexts pieces)
  obtain ⟨ts, rfl⟩ := Glob.exists_tokens (fun htwo => hstars (String.toList_inj.1 htwo)) hcompile
  refine ⟨matching host c root (.tokens ts), entryFiles_root hwell hpieces hwild hentry hcompile,
    pathsOf_root hwell hpieces hwild hentry hcompile, ?_, fun n => ?_, fun n hn => ?_,
    fun n hfit hn htop => ?_⟩
  · have hsorted : ((host.listing root).map Entry.name).Pairwise (· < ·) :=
      List.pairwise_map.2 (Host.pairwise_listing hwell root)
    exact hsorted.filter _
  · simp only [matching, List.mem_filter, List.mem_map, Host.mem_listing, Bool.and_eq_true,
      Glob.acceptsName_iff]
    refine and_congr_left fun _ => ?_
    constructor
    · rintro ⟨e, ⟨top, htop, he⟩, rfl⟩
      exact ⟨top, htop, e, he, rfl⟩
    · rintro ⟨top, htop, e, he, rfl⟩
      exact ⟨e, ⟨top, htop, he⟩, rfl⟩
  · obtain ⟨e, he, rfl⟩ := List.mem_map.1 (List.mem_filter.1 hn).1
    have hname := Glob.proper_of_mem_listing hwell he
    exact ⟨hname, Path.components_child hbytes hname⟩
  · obtain ⟨top, htop⟩ := htop
    exact isFile_child_iff hbytes htop hfit hn

/-- A site with wildcards in its name, and another site that these would match. -/
def starredHost : Host where
  tree := .directory []
    [.directory "a*[b]".toList [.file "x.js".toList [], .link "l.js".toList (.ofString "x.js"),
        .file "y.php".toList [], .directory "d.js".toList []],
      .directory "a-b".toList [.file "z.js".toList []]]
  workingDirectory := []
  pluginHome := none
  noColor := false
  programDirectory := .ofString "/"

lemma starredHost_wellFormed : starredHost.tree.WellFormed := by decide

theorem root_pattern_of_starred :
    let entry := "*.js"
    let location : List Name := ["a*[b]".toList]
    let root := Path.ofLocation location
    let c := sourceConfig [entry]
    starredHost.tree.WellFormed ∧ (∀ n ∈ location, n.IsProper ∧ n.IsText) ∧
      Glob.splice root entry.toList = "/a[*][[]b[]]/*.js".toList ∧
      entryFiles? starredHost c root entry =
        some [.ofString "/a*[b]/l.js", .ofString "/a*[b]/x.js"] ∧
      (Glob.pathsOf? starredHost (Glob.splice root entry.toList)).map
        (fun ps => ps.filter fun q => starredHost.isFile q && c.accepts q) =
          some [.ofString "/a*[b]/l.js", .ofString "/a*[b]/x.js"] := by
  intro entry location root c
  have hroot : ∀ n ∈ location, n.IsProper ∧ n.IsText :=
    List.forall_mem_singleton.2 ⟨by decide, _, rfl⟩
  have hcompile : Glob.compile? entry.toList =
      some (.tokens [.anyText, .char '.', .char 'j', .char 's']) := by cbv
  have hfiles : entryFiles? starredHost c root entry =
      some [.ofString "/a*[b]/l.js", .ofString "/a*[b]/x.js"] := by cbv
  obtain ⟨ns, hplain, hquoted, -⟩ := root_pattern_exact starredHost c location entry _
    starredHost_wellFormed hroot (by decide) (by decide) (by decide) hcompile
  exact ⟨starredHost_wellFormed, hroot, by cbv, hfiles,
    hquoted.trans (hplain.symm.trans hfiles)⟩

/-- An entry below so many directories, one inside the other and all of one name. -/
def nest (n : Name) (e : Entry) : Nat → Entry
  | 0 => e
  | k + 1 => .directory n [nest n e k]

lemma exists_at?_nest (n m : Name) (e : Entry) (k : Nat) :
    ∃ j, (Entry.directory m [nest n e k]).at? (List.replicate k n) = some (.directory j [e]) := by
  induction k generalizing m with
  | zero => exact ⟨m, rfl⟩
  | succ k ih =>
    obtain ⟨j, hj⟩ := ih n
    refine ⟨j, ?_⟩
    rw [List.replicate_succ, Entry.at?_cons, nest]
    simpa [Entry.find?, Entry.name] using hj

lemma name_nest {n : Name} {e : Entry} {P : Name → Prop} (hn : P n) (he : P e.name) (k : Nat) :
    P (nest n e k).name := by
  cases k with
  | zero => exact he
  | succ k => exact hn

lemma wellFormed_nest {n : Name} {e : Entry} (hn : n.IsProper) (hname : e.name.IsProper)
    (he : e.WellFormed) (m : Name) (k : Nat) : (Entry.directory m [nest n e k]).WellFormed := by
  refine .directory _ _ (List.nodup_singleton _)
    (List.forall_mem_singleton.2 (name_nest hn hname k)) (List.forall_mem_singleton.2 ?_)
  induction k with
  | zero => exact he
  | succ k ih =>
    exact .directory _ _ (List.nodup_singleton _)
      (List.forall_mem_singleton.2 (name_nest hn hname k)) (List.forall_mem_singleton.2 ih)

lemma namesFit_nest {n : Name} {e : Entry} (hn : n.Fits) (hname : e.name.Fits)
    (he : e.NamesFit) (m : Name) (k : Nat) : (Entry.directory m [nest n e k]).NamesFit := by
  refine .directory _ _ (List.forall_mem_singleton.2 (name_nest hn hname k))
    (List.forall_mem_singleton.2 ?_)
  induction k with
  | zero => exact he
  | succ k ih =>
    exact .directory _ _ (List.forall_mem_singleton.2 (name_nest hn hname k))
      (List.forall_mem_singleton.2 ih)

/-- As long as a name can be. -/
def deepPiece : List Char := List.replicate 255 'd'

/-- As long as the name of a script can be. -/
def longPiece : List Char := List.replicate 252 'a' ++ ".js".toList

/-- A script so far down that its path has 4096 bytes. -/
def deepHost : Host where
  tree := .directory [] [nest deepPiece (.file longPiece []) 15]
  workingDirectory := []
  pluginHome := none
  noColor := false
  programDirectory := .ofString "/"

/-- A site whose name is no text, and one with the name that is read instead. -/
def misreadHost : Host where
  tree := .directory []
    [.directory [0xFF] [.file "in.js".toList []],
      .directory "\uFFFD".toList [.file "out.js".toList []]]
  workingDirectory := []
  pluginHome := none
  noColor := false
  programDirectory := .ofString "/"

lemma deepPiece_stored : Name.IsProper deepPiece ∧ Name.Fits deepPiece := by decide +kernel

lemma longPiece_stored : Name.IsProper longPiece ∧ Name.Fits longPiece := by decide +kernel

lemma deepHost_wellFormed : deepHost.tree.WellFormed :=
  @wellFormed_nest _ (.file longPiece []) deepPiece_stored.1 longPiece_stored.1 (.file _ _) [] 15

lemma deepHost_namesFit : deepHost.tree.NamesFit :=
  @namesFit_nest _ (.file longPiece []) deepPiece_stored.2 longPiece_stored.2 (.file _ _) [] 15

/-- Where the script is. -/
def deepLocation : List Name := List.replicate 15 deepPiece

lemma deepLocation_stored : ∀ n ∈ deepLocation, n.IsProper ∧ n.Fits := by
  intro n hn
  rw [List.eq_of_mem_replicate hn]
  exact deepPiece_stored

lemma ofTexts_deep : Glob.ofTexts (List.replicate 15 deepPiece) = .ofLocation deepLocation := by
  rw [Glob.ofTexts, List.map_replicate, deepLocation]

lemma exists_entry_deep : ∃ j,
    deepHost.entry (.ofLocation deepLocation) true = .ok (.directory j [.file longPiece []]) := by
  obtain ⟨j, hat⟩ := exists_at?_nest deepPiece [] (.file longPiece []) 15
  have hproper : ∀ n ∈ deepLocation, n.IsProper := fun n hn => (deepLocation_stored n hn).1
  have hpieces : (Path.ofLocation deepLocation).solidPieces = deepLocation :=
    Path.Spells.plain.solidPieces fun n hn => ⟨(hproper n hn).nonempty, (hproper n hn).noSlash⟩
  have hfollow : Host.follow deepHost.tree true Host.linkLimit [] deepLocation =
      .ok ([] ++ deepLocation) :=
    Host.follow_names rfl hat (fun _ _ => Entry.noConfusion) hproper
      (fun n hn => (deepLocation_stored n hn).2) _
  refine ⟨j, Host.entry_eq_directory_iff.2 ⟨?_, deepLocation, ?_, hat⟩⟩
  · exact ⟨by decide +kernel, by decide +kernel, by decide +kernel⟩
  · rw [Path.isAbsolute_ofLocation, if_pos rfl, hpieces]
    exact hfollow

lemma leadsToFile_deep :
    deepHost.LeadsToFile ((Path.ofLocation deepLocation).child longPiece) := by
  have hheld (n m : Name) : (Entry.directory n [.file m []]).HoldsFile [m] :=
    ⟨m, [], by simp [Entry.at?, Entry.find?, Entry.name]⟩
  have hchild (p : Path) (n : Name) : p.child n = p.descend [n] := rfl
  obtain ⟨j, hentry⟩ := exists_entry_deep
  have hleads := Host.leadsToFile_descend deepHost_wellFormed deepHost_namesFit
    (Path.isAbsolute_ofLocation _) hentry rfl (hheld j longPiece)
  rw [hchild]
  exact hleads.1

lemma matchesAll_script (k : Nat) :
    Glob.matchesAll [.anyText, .char '.', .char 'j', .char 's']
      (List.replicate k 'a' ++ ".js".toList) = true := by
  induction k with
  | zero => cbv
  | succ k ih => rw [List.replicate_succ, List.cons_append, Glob.matchesAll, ih, Bool.or_true]

/-- A script in the root of a site is left out when its path is too long to be looked up. From a root
that is no text, the scripts of another site are given. -/
theorem root_pattern_astray :
    let c := sourceConfig ["*.js"]
    let root := Path.ofLocation deepLocation
    deepHost.tree.WellFormed ∧ deepHost.tree.NamesFit ∧
      (∀ n ∈ deepLocation, n.IsProper ∧ n.IsText) ∧
      (∃ j, deepHost.entry root true = .ok (.directory j [.file longPiece []])) ∧
      Glob.compile? "*.js".toList = some (.tokens [.anyText, .char '.', .char 'j', .char 's']) ∧
      (Glob.Pattern.tokens [.anyText, .char '.', .char 'j', .char 's']).accepts longPiece = true ∧
      deepHost.LeadsToFile (root.child longPiece) ∧ c.accepts (root.child longPiece) = true ∧
      entryFiles? deepHost c root "*.js" = some [] ∧
      misreadHost.isFile (.child (.ofLocation [[0xFF]]) "in.js".toList) = true ∧
      entryFiles? misreadHost c (.ofLocation [[0xFF]]) "*.js" =
        some [.ofString "/\uFFFD/out.js"] := by
  intro c root
  have hcompile : Glob.compile? "*.js".toList =
      some (.tokens [.anyText, .char '.', .char 'j', .char 's']) := by cbv
  have hpieces : ∀ cs ∈ List.replicate 15 deepPiece, Name.IsProper cs := by
    intro cs hcs
    rw [List.eq_of_mem_replicate hcs]
    exact deepPiece_stored.1
  obtain ⟨j, hentry⟩ := exists_entry_deep
  have hlong : Path.limit ≤ (root.child longPiece).bytes.length := by decide +kernel
  have hnofile : deepHost.isFile (root.child longPiece) = false := by
    rw [← Bool.not_eq_true, Host.isFile_iff]
    exact fun h => Nat.not_lt_of_le hlong h.2.2.2
  have hlisting : deepHost.listing root = [.file longPiece []] := by
    rw [Host.listing, hentry]
    exact List.mergeSort_singleton _
  have hnone : matching deepHost c root (.tokens [.anyText, .char '.', .char 'j', .char 's']) = [] := by
    simp [matching, hlisting, Entry.name, hnofile]
  have hfiles : entryFiles? deepHost c root "*.js" = some [] := by
    have hroot := entryFiles_root (c := c) deepHost_wellFormed hpieces (by decide) (by decide) hcompile
    rwa [ofTexts_deep, hnone] at hroot
  refine ⟨deepHost_wellFormed, deepHost_namesFit, fun n hn => ⟨(deepLocation_stored n hn).1, ?_⟩,
    ⟨j, hentry⟩, hcompile, matchesAll_script 252, leadsToFile_deep, ?_, hfiles, by cbv, by cbv⟩
  · exact ⟨deepPiece, List.eq_of_mem_replicate hn⟩
  · decide +kernel

end Target

end SiteLint
