import SiteLint.Proofs.PatternSearch
import SiteLint.Proofs.ReportRules
import SiteLint.Proofs.StandardsEntries

/-!
Which paths are those of generated files.

It depends on the last name of the path and on nothing else. Slashes and dots behind the name do not
count, and a path that leads up at its end has no last name. The patterns ask how the name ends, and
one of them what stands somewhere in it besides. A report is about all other files.
-/

namespace SiteLint

/-! ### The last name of a path -/

namespace Path

/-- A text that a piece can be put behind: nothing, or all up to a slash. -/
def IsOpen (before : List Char) : Prop := before = [] ∨ ∃ cs, before = cs ++ ['/']

/-- The text of a path ends in a name, or in none. -/
inductive EndsIn : List Char → Option (List Char) → Prop
  | empty : EndsIn [] none
  | here : EndsIn ['.'] none
  | up {before : List Char} (h : IsOpen before) : EndsIn (before ++ ['.', '.']) none
  | name {before n : List Char} (h : IsOpen before) (hn : Name.IsProper n) :
    EndsIn (before ++ n) (some n)
  | slash {cs : List Char} {n : Option (List Char)} (h : EndsIn cs n) : EndsIn (cs ++ ['/']) n
  | dot {cs : List Char} {n : Option (List Char)} (h : EndsIn cs n) : EndsIn (cs ++ ['/', '.']) n

variable {before cs : List Char} {n : Option (List Char)}

lemma exists_last_piece (cs : List Char) :
    ∃ before last, cs = before ++ last ∧ IsOpen before ∧ '/' ∉ last := by
  induction cs using List.reverseRecOn with
  | nil => exact ⟨[], [], rfl, .inl rfl, List.not_mem_nil⟩
  | append_singleton cs c ih =>
    by_cases hc : c = '/'
    · exact ⟨cs ++ ['/'], [], by rw [hc, List.append_nil], .inr ⟨cs, rfl⟩, List.not_mem_nil⟩
    · obtain ⟨before, last, rfl, hopen, hlast⟩ := ih
      refine ⟨before, last ++ [c], List.append_assoc _ _ _, hopen, ?_⟩
      rw [List.mem_append, List.mem_singleton, not_or]
      exact ⟨hlast, Ne.symm hc⟩

lemma isProper_encode {cs : List Char} (hempty : cs ≠ []) (hslash : '/' ∉ cs) (hdot : cs ≠ ['.'])
    (hup : cs ≠ ['.', '.']) : Name.IsProper cs where
  nonempty := mt Text.Utf8.encode_eq_nil.1 hempty
  noSlash := mt Text.Utf8.slash_mem_encode.1 hslash
  notHere h := hdot (Text.Utf8.encode_injective h)
  notUp h := hup (Text.Utf8.encode_injective h)

lemma exists_endsIn (cs : List Char) : ∃ n, EndsIn cs n := by
  induction hlength : cs.length using Nat.strong_induction_on generalizing cs with
  | _ k ih =>
    obtain ⟨before, last, rfl, hopen, hlast⟩ := exists_last_piece cs
    have hshorter {ds : List Char} (hds : before = ds ++ ['/']) : ∃ n, EndsIn ds n := by
      refine ih ds.length ?_ ds rfl
      simp only [← hlength, hds, List.length_append, List.length_singleton]
      omega
    by_cases hempty : last = []
    · subst hempty
      rcases hopen with rfl | ⟨ds, hds⟩
      · exact ⟨none, .empty⟩
      · obtain ⟨n, hn⟩ := hshorter hds
        exact ⟨n, by simpa [hds] using hn.slash⟩
    · by_cases hdot : last = ['.']
      · subst hdot
        rcases hopen with rfl | ⟨ds, hds⟩
        · exact ⟨none, .here⟩
        · obtain ⟨n, hn⟩ := hshorter hds
          exact ⟨n, by simpa [hds] using hn.dot⟩
      · by_cases hup : last = ['.', '.']
        · subst hup
          exact ⟨none, .up hopen⟩
        · exact ⟨some last, .name hopen (isProper_encode hempty hlast hdot hup)⟩

lemma getLast_components {piece : List UInt8} {c : Component} (h : IsOpen before)
    (hpiece : slash ∉ piece) (hc : Component.ofPiece? piece = some c) :
    (⟨Text.Utf8.encode before ++ piece⟩ : Path).components.getLast? = some c := by
  rcases h with rfl | ⟨cs, rfl⟩
  · have hne : piece ≠ [dot] := by
      rintro rfl
      cases hc
    rw [Text.Utf8.encode_nil, List.nil_append, components, isAbsolute_piece hpiece, pieces,
      Text.splitAt_of_notMem hpiece]
    simp [hne, hc]
  · have hslash : Text.Utf8.encode ['/'] = [slash] := rfl
    rw [Text.Utf8.encode_append, hslash, List.append_assoc, List.singleton_append,
      components_append_piece hpiece, hc]
    simp

lemma fileName_of_endsIn (h : EndsIn cs n) :
    (⟨Text.Utf8.encode cs⟩ : Path).fileName? = n.map Text.Utf8.encode := by
  induction h with
  | empty => rfl
  | here => rfl
  | up hopen =>
    rw [Text.Utf8.encode_append, fileName?, getLast_components hopen (by decide) rfl]
    rfl
  | name hopen hn =>
    rw [Text.Utf8.encode_append, fileName?, getLast_components hopen hn.noSlash (ofPiece_name hn)]
    rfl
  | @slash cs n h ih =>
    by_cases hcs : cs = []
    · subst hcs
      rw [← ih]
      rfl
    · have hne := mt Text.Utf8.encode_eq_nil.1 hcs
      have hslash : Text.Utf8.encode ['/'] = [SiteLint.slash] := rfl
      rw [Text.Utf8.encode_append, hslash, fileName?, components_append_slash hne]
      exact ih
  | @dot cs n h ih =>
    by_cases hcs : cs = []
    · subst hcs
      rw [← ih]
      rfl
    · have hne := mt Text.Utf8.encode_eq_nil.1 hcs
      have hdot : Text.Utf8.encode ['/', '.'] = [SiteLint.slash, SiteLint.dot] := rfl
      have hcomponents : (⟨Text.Utf8.encode (cs ++ ['/', '.'])⟩ : Path).components =
          (⟨Text.Utf8.encode cs⟩ : Path).components := by
        rw [Text.Utf8.encode_append, hdot, components_append_piece (by decide),
          components_append_slash hne]
        exact List.append_nil _
      rw [fileName?, hcomponents]
      exact ih

lemma endsIn_iff : EndsIn cs n ↔
    (⟨Text.Utf8.encode cs⟩ : Path).fileName? = n.map Text.Utf8.encode := by
  refine ⟨fileName_of_endsIn, fun h => ?_⟩
  obtain ⟨m, hm⟩ := exists_endsIn cs
  rw [fileName_of_endsIn hm] at h
  rwa [← Option.map_injective Text.Utf8.encode_injective h]

end Path

/-! ### Patterns with stars -/

namespace Glob

variable {ts : List Token} {cs e e' : List Char}

lemma matchesAll_star : matchesAll (.anyText :: ts) cs = true ↔
    ∃ a b, cs = a ++ b ∧ matchesAll ts b = true := by
  induction cs with
  | nil =>
    rw [matchesAll]
    constructor
    · exact fun h => ⟨[], [], rfl, h⟩
    · rintro ⟨a, b, hcs, h⟩
      obtain ⟨rfl, rfl⟩ := List.nil_eq_append_iff.1 hcs
      exact h
  | cons c cs ih =>
    rw [matchesAll, Bool.or_eq_true, ih]
    constructor
    · rintro (h | ⟨a, b, rfl, h⟩)
      · exact ⟨[], c :: cs, rfl, h⟩
      · exact ⟨c :: a, b, rfl, h⟩
    · rintro ⟨a, b, hcs, h⟩
      cases a with
      | nil =>
        rw [List.nil_append] at hcs
        exact .inl (hcs ▸ h)
      | cons d a =>
        rw [List.cons_append, List.cons.injEq] at hcs
        exact .inr ⟨a, b, hcs.2, h⟩

lemma matchesAll_chars : matchesAll (e.map .char ++ ts) cs = true ↔
    ∃ b, cs = e ++ b ∧ matchesAll ts b = true := by
  induction e generalizing cs with
  | nil => simp
  | cons c e ih =>
    rw [List.map_cons, List.cons_append]
    cases cs with
    | nil => simp [matchesAll]
    | cons d cs =>
      have hstep : matchesAll (.char c :: (e.map .char ++ ts)) (d :: cs) =
          (decide (d = c) && matchesAll (e.map .char ++ ts) cs) := by
        rw [matchesAll]
        · rfl
        · exact Token.noConfusion
      rw [hstep, Bool.and_eq_true, ih, decide_eq_true_eq]
      constructor
      · rintro ⟨rfl, b, rfl, h⟩
        exact ⟨b, rfl, h⟩
      · rintro ⟨b, hcs, h⟩
        rw [List.cons_append, List.cons.injEq] at hcs
        exact ⟨hcs.1, b, hcs.2, h⟩

lemma tokenize_plain_append (h : hasWildcard e = false) (cs : List Char) :
    tokenize (e ++ cs) = (tokenize cs).map (e.map .char ++ ·) := by
  induction e with
  | nil => simp
  | cons c e ih =>
    rw [hasWildcard_cons, Bool.or_eq_false_iff] at h
    rw [List.cons_append, tokenize_cons h.1, ih h.2, Option.map_map]
    rfl

lemma tokenize_star (h : cs.head? ≠ some '*') :
    tokenize ('*' :: cs) = (tokenize cs).map (.anyText :: ·) := by
  rw [tokenize]
  rintro rest rfl
  exact h rfl

lemma matches_iff_of_tokenize {pattern : String} {n : List Char} (hstars : pattern.toList ≠ ['*', '*'])
    (h : tokenize pattern.toList = some ts) : Matches pattern n ↔ matchesAll ts n = true := by
  simp [Matches, compile?, hstars, h, Pattern.accepts]

lemma matchesAll_text {n : List Char} : matchesAll (e.map .char) n = true ↔ n = e := by
  have hend (b : List Char) : matchesAll [] b = true ↔ b = [] := by cases b <;> simp [matchesAll]
  rw [← List.append_nil (e.map Token.char), matchesAll_chars]
  simp [hend]

lemma head_ne_star (h : hasWildcard e = false) : e.head? ≠ some '*' := by
  cases e with
  | nil => simp
  | cons c e =>
    rintro ⟨⟩
    cases h

lemma matches_ending {pattern : String} {n : List Char} (h : hasWildcard e = false)
    (hpattern : pattern.toList = '*' :: e) : Matches pattern n ↔ ∃ a, n = a ++ e := by
  have htext : tokenize e = some (e.map .char) := by
    simpa [tokenize] using tokenize_plain_append h []
  have htokens : tokenize pattern.toList = some (.anyText :: e.map .char) := by
    rw [hpattern, tokenize_star (head_ne_star h), htext, Option.map_some]
  have hstars : pattern.toList ≠ ['*', '*'] := by
    rw [hpattern]
    rintro ⟨⟩
    cases h
  rw [matches_iff_of_tokenize hstars htokens, matchesAll_star]
  simp only [matchesAll_text, exists_eq_right]

lemma matches_parted {pattern : String} {n : List Char} (h : hasWildcard e = false)
    (h' : hasWildcard e' = false) (hne : e ≠ [])
    (hpattern : pattern.toList = '*' :: (e ++ '*' :: e')) :
    Matches pattern n ↔ ∃ a b, n = a ++ e ++ b ++ e' := by
  have htext : tokenize e' = some (e'.map .char) := by
    simpa [tokenize] using tokenize_plain_append h' []
  have hhead : (e ++ '*' :: e').head? ≠ some '*' := by
    have hstart := head_ne_star h
    obtain ⟨c, cs, rfl⟩ := List.exists_cons_of_ne_nil hne
    exact hstart
  have htokens : tokenize pattern.toList =
      some (.anyText :: (e.map .char ++ .anyText :: e'.map .char)) := by
    rw [hpattern, tokenize_star hhead, tokenize_plain_append h, tokenize_star (head_ne_star h'),
      htext, Option.map_some, Option.map_some, Option.map_some]
  have hstars : pattern.toList ≠ ['*', '*'] := by
    rw [hpattern]
    obtain ⟨c, cs, rfl⟩ := List.exists_cons_of_ne_nil hne
    simp
  rw [matches_iff_of_tokenize hstars htokens, matchesAll_star]
  simp only [matchesAll_chars, matchesAll_star, matchesAll_text]
  constructor
  · rintro ⟨a, _, rfl, _, rfl, b, _, rfl, rfl⟩
    exact ⟨a, b, by simp⟩
  · rintro ⟨a, b, rfl⟩
    exact ⟨a, _, by simp, _, rfl, b, _, rfl, rfl⟩

end Glob

namespace CodeSniffer

/-- How the names of generated files end, as a rule. -/
def generatedEndings : List String :=
  [".apachesolr_environments.inc", ".apachesolr_search_defaults.inc", ".context.inc",
    ".features.inc", ".field_group.inc", ".pages_default.inc", ".strongarm.inc",
    ".views_default.inc"]

/-- The name is one of a generated file. -/
inductive IsGeneratedName : List Char → Prop
  | ending (a : List Char) {e : String} (he : e ∈ generatedEndings) :
    IsGeneratedName (a ++ e.toList)
  | parted (a b : List Char) :
    IsGeneratedName (a ++ ".features.".toList ++ b ++ ".inc".toList)

/-- The last name of the path is one of a generated file. -/
def NamesGenerated (path : String) : Prop :=
  ∃ n, Path.EndsIn path.toList (some n) ∧ IsGeneratedName n

lemma mem_generatedPatterns {pattern : String} :
    pattern ∈ generatedPatterns ↔
      (∃ e ∈ generatedEndings, pattern.toList = '*' :: e.toList) ∨
        pattern.toList = '*' :: (".features.".toList ++ '*' :: ".inc".toList) := by
  have hperm : generatedPatterns.Perm
      (generatedEndings.map ("*" ++ ·) ++ ["*.features.*.inc"]) := by decide
  have hchars (e : String) : "*" ++ e = pattern ↔ pattern.toList = '*' :: e.toList := by
    rw [← String.toList_inj, String.toList_append, eq_comm]
    rfl
  rw [hperm.mem_iff, List.mem_append, List.mem_map, List.mem_singleton, ← String.toList_inj]
  simp only [hchars]
  rfl

lemma isGeneratedName_iff {n : List Char} :
    IsGeneratedName n ↔ ∃ pattern ∈ generatedPatterns, Glob.Matches pattern n := by
  have hplain : ∀ e ∈ generatedEndings, Glob.hasWildcard e.toList = false := by decide
  have hparted {pattern : String}
      (h : pattern.toList = '*' :: (".features.".toList ++ '*' :: ".inc".toList)) :=
    Glob.matches_parted (n := n) (by decide) (by decide) (by decide) h
  constructor
  · rintro (⟨a, he⟩ | ⟨a, b⟩)
    · refine ⟨"*" ++ _, mem_generatedPatterns.2 (.inl ⟨_, he, String.toList_append⟩), ?_⟩
      exact (Glob.matches_ending (hplain _ he) String.toList_append).2 ⟨a, rfl⟩
    · exact ⟨"*.features.*.inc", mem_generatedPatterns.2 (.inr rfl), (hparted rfl).2 ⟨a, b, rfl⟩⟩
  · rintro ⟨pattern, hmem, hmatches⟩
    rcases mem_generatedPatterns.1 hmem with ⟨e, he, hpattern⟩ | hpattern
    · obtain ⟨a, rfl⟩ := (Glob.matches_ending (hplain e he) hpattern).1 hmatches
      exact .ending a he
    · obtain ⟨a, b, rfl⟩ := (hparted hpattern).1 hmatches
      exact .parted a b

lemma not_isGeneratedName_nil : ¬ IsGeneratedName [] := by
  have hne : ∀ e ∈ generatedEndings, e.toList ≠ [] := by decide
  have hnil {n : List Char} (h : IsGeneratedName n) : n ≠ [] := by
    cases h with
    | ending a he => exact fun h => hne _ he (List.append_eq_nil_iff.1 h).2
    | parted a b => simp
  exact fun h => hnil h rfl

lemma isGenerated_iff {path : String} : isGenerated path = true ↔ NamesGenerated path := by
  have hmatches (n : List Char) : generatedNames.any (·.accepts n) = true ↔ IsGeneratedName n := by
    rw [isGeneratedName_iff, List.any_eq_true]
    simp only [generatedNames, List.mem_filterMap, Glob.Matches]
    constructor
    · rintro ⟨p, ⟨pattern, hpattern, hp⟩, haccepts⟩
      exact ⟨pattern, hpattern, p, hp, haccepts⟩
    · rintro ⟨pattern, hpattern, p, hp, haccepts⟩
      exact ⟨p, ⟨pattern, hpattern, hp⟩, haccepts⟩
  obtain ⟨m, hm⟩ := Path.exists_endsIn path.toList
  have hfile : (Path.ofString path).fileName? = m.map Text.Utf8.encode := Path.endsIn_iff.1 hm
  have hname (n : List Char) : Path.EndsIn path.toList (some n) ↔ m = some n := by
    rw [Path.endsIn_iff, ← Path.ofString, hfile]
    exact (Option.map_injective Text.Utf8.encode_injective).eq_iff
  rw [isGenerated, hmatches, hfile]
  simp only [NamesGenerated, hname]
  cases m with
  | none => simpa [Text.Utf8.lenientText, Text.Utf8.decode] using not_isGeneratedName_nil
  | some n => simp [Text.Utf8.lenientText_encode]

/-- **Generated files** are known by the last name of their path, wherever they are: it has one of
the endings, or is parted by the two texts in their order. Every path has one last name, or none,
whatever slashes and dots come behind it. A standards report leaves out the paths of generated files
and no others. -/
theorem generated_by_last_name :
    (∀ path, isGenerated path = true ↔ NamesGenerated path) ∧
    (∀ path : String, ∃ n, ∀ m, Path.EndsIn path.toList m ↔ m = n) ∧
    (∀ (path path' : String) (n : Option (List Char)), Path.EndsIn path.toList n →
      Path.EndsIn path'.toList n → isGenerated path = isGenerated path') ∧
    ∀ printed r entries, readReport printed = .ok r → Prints printed entries →
      ∀ path ∈ entries.map (·.1), path ∉ r.files.map (·.path) ↔ NamesGenerated path := by
  have hname {path : String} {m : Option (List Char)} :
      Path.EndsIn path.toList m ↔ (Path.ofString path).fileName? = m.map Text.Utf8.encode :=
    Path.endsIn_iff
  refine ⟨fun path => isGenerated_iff, fun path => ?_, fun path path' n h h' => ?_,
    fun printed r entries hr hprints path hpath => ?_⟩
  · obtain ⟨n, hn⟩ := Path.exists_endsIn path.toList
    refine ⟨n, fun m => ?_⟩
    rw [hname, hname.1 hn, (Option.map_injective Text.Utf8.encode_injective).eq_iff, eq_comm]
  · rw [isGenerated, isGenerated, hname.1 h, hname.1 h']
  · obtain ⟨kept, hkept, hreport⟩ := readReport_of_prints hprints
    have hshows := shows_of_reportOf hkept (hreport ▸ hr)
    rw [hshows.paths, ← isGenerated_iff]
    simp [hpath]

/-- The same name at the end of other directories, where it is not the last piece. -/
theorem generated_in_tangled_findings :
    let path := "/srv/a.php/../b.features.inc//."
    let name := "b.features.inc".toList
    (Path.EndsIn "b.features.inc".toList (some name) ∧ Path.EndsIn path.toList (some name) ∧
      isGenerated "b.features.inc" = isGenerated path) ∧
    ∃ entries, readReport Run.tangledFindings = .ok Run.standardsReport ∧
      Prints Run.tangledFindings entries ∧ "b.features.inc" ∈ entries.map (·.1) ∧
      "b.features.inc" ∉ Run.standardsReport.files.map (·.path) ∧
      NamesGenerated "b.features.inc" := by
  intro path name
  have hproper : Name.IsProper name := by decide
  have hname : Path.EndsIn "b.features.inc".toList (some name) := .name (.inl rfl) hproper
  have htext : path.toList = "/srv/a.php/..".toList ++ ['/'] ++ name ++ ['/'] ++ ['/', '.'] := by
    decide
  have hpath : Path.EndsIn path.toList (some name) :=
    htext ▸ (Path.EndsIn.name (.inr ⟨_, rfl⟩) hproper).slash.dot
  obtain ⟨-, -, hsame, hreport⟩ := generated_by_last_name
  have hdocument : (Json.read? (Text.trim Run.tangledFindings.toList)).bind fileEntries? =
      some [("a.php", Run.tangledEntry), ("b.features.inc", .nat 0)] := by cbv
  obtain ⟨v, hv, hentries⟩ := Option.bind_eq_some_iff.1 hdocument
  obtain ⟨entries, hshape, hkept⟩ := fileEntries_eq_some_iff.1 hentries
  have hprints : Prints Run.tangledFindings entries := ⟨v, hv, hshape⟩
  have hmem : "b.features.inc" ∈ entries.map (·.1) :=
    (Json.mem_names_of_keepsMembers hkept).1 (by simp)
  have hiff := hreport _ _ _ Run.tangledFindings_read hprints _ hmem
  have hleft : "b.features.inc" ∉ Run.standardsReport.files.map (·.path) := by decide
  exact ⟨⟨hname, hpath, hsame _ _ _ hname hpath⟩,
    entries, Run.tangledFindings_read, hprints, hmem, hleft, hiff.1 hleft⟩

end CodeSniffer

end SiteLint
