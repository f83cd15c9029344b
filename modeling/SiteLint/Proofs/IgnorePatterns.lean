import SiteLint.Proofs.ListArguments
import SiteLint.Proofs.SettingsSource
import SiteLint.Proofs.TextCut

/-!
What PHP_CodeSniffer is told to pass over.

The patterns for generated files come first. Behind them come the patterns of the ignore file: its
lines without the blanks around them, but for lines with nothing on them and comments. All of them
stand in one argument of the command, where a comma in a pattern is taken for the end of it.
-/

namespace SiteLint

/-- The lines of a text as the line feeds in it part them. -/
def Text.rows (text : String) : List (List Char) := splitAt '\n' text.toList

namespace CodeSniffer

/-- A line that is no pattern: nothing is on it, or a comment. -/
inductive IsIdle : List Char → Prop
  | blank {l : List Char} (h : Text.isBlankText l = true) : IsIdle l
  | comment {indent : List Char} (hindent : Text.isBlankText indent = true) (text : List Char) :
    IsIdle (indent ++ '#' :: text)

/-- A pattern as it can stand on a line. -/
structure IsPattern (q : String) : Prop where
  nonempty : q.toList ≠ []
  noComment : q.toList.head? ≠ some '#'
  noIndent : ∀ c ∈ q.toList.head?, Text.isBlank c = false
  noPadding : ∀ c ∈ q.toList.getLast?, Text.isBlank c = false

/-- The patterns on lines, in their order. -/
inductive Picks : List (List Char) → List String → Prop
  | nil : Picks [] []
  | idle {l : List Char} {ls : List (List Char)} {qs : List String} (hl : IsIdle l)
    (h : Picks ls qs) : Picks (l :: ls) qs
  | pattern {indent padding : List Char} {q : String} {ls : List (List Char)} {qs : List String}
    (hindent : Text.isBlankText indent = true) (hpadding : Text.isBlankText padding = true)
    (hq : IsPattern q) (h : Picks ls qs) :
    Picks ((indent ++ q.toList ++ padding) :: ls) (q :: qs)

/-- The same lines, but for lines that are no patterns and blanks around the others. -/
inductive Relaid : List (List Char) → List (List Char) → Prop
  | nil : Relaid [] []
  | idleLeft {l : List Char} {ls ls' : List (List Char)} (hl : IsIdle l) (h : Relaid ls ls') :
    Relaid (l :: ls) ls'
  | idleRight {l : List Char} {ls ls' : List (List Char)} (hl : IsIdle l) (h : Relaid ls ls') :
    Relaid ls (l :: ls')
  | padded {indent padding indent' padding' : List Char} {ls ls' : List (List Char)}
    (l : List Char) (hindent : Text.isBlankText indent = true)
    (hpadding : Text.isBlankText padding = true) (hindent' : Text.isBlankText indent' = true)
    (hpadding' : Text.isBlankText padding' = true) (h : Relaid ls ls') :
    Relaid ((indent ++ l ++ padding) :: ls) ((indent' ++ l ++ padding') :: ls')

/-- What an ignore file adds to the patterns for generated files. -/
inductive Adds (host : Host) : Option Path → List String → Prop
  | held {p : Path} {text : String} (h : host.Holds p (Text.Utf8.stored text)) :
    Adds host (some p) (patternLines text)
  | unreadable {p : Path} (h : ∀ text, ¬ host.Holds p (Text.Utf8.stored text)) :
    Adds host (some p) []
  | unset : Adds host none []

/-- The pattern on a line. -/
def patternOn? (l : List Char) : Option String :=
  if Text.trim l = [] ∨ (Text.trim l).head? = some '#' then none
  else some (.ofList (Text.trim l))

variable {l : List Char} {ls ls' : List (List Char)} {q : String} {qs : List String}

/-! ### One line -/

lemma patternOn_padded {indent padding : List Char} (hindent : Text.isBlankText indent = true)
    (hpadding : Text.isBlankText padding = true) :
    patternOn? (indent ++ l ++ padding) = patternOn? l := by
  rw [patternOn?, patternOn?, Text.trim_padded hindent hpadding]

lemma patternOn_eq_none_iff : patternOn? l = none ↔ IsIdle l := by
  have hnone : patternOn? l = none ↔ Text.trim l = [] ∨ (Text.trim l).head? = some '#' := by
    rw [patternOn?]
    split <;> simp [*]
  rw [hnone]
  constructor
  · rintro (h | h)
    · exact .blank (Text.trim_eq_nil_iff.1 h)
    · obtain ⟨indent, padding, hindent, -, hl⟩ := Text.exists_padded_trim l
      obtain ⟨text, htext⟩ := List.head?_eq_some_iff.1 h
      rw [htext, List.append_assoc, List.cons_append] at hl
      rw [hl]
      exact .comment hindent _
  · rintro (h | ⟨hindent, text⟩)
    · exact .inl (Text.trim_of_blank h)
    · right
      have hmark : Text.isBlank '#' = false := by decide
      rw [Text.trim, Text.trimStart_blank hindent hmark]
      have hend := Text.trimEnd_append_cons [] text hmark
      rw [List.nil_append] at hend
      rw [hend]
      rfl

lemma patternOn_of_isPattern (hq : IsPattern q) : patternOn? q.toList = some q := by
  rw [patternOn?, Text.trim_eq_self hq.noIndent hq.noPadding, if_neg, String.ofList_toList]
  simp [hq.noComment, hq.nonempty]

lemma patternOn_eq_some_iff :
    patternOn? l = some q ↔ ∃ indent padding, Text.isBlankText indent = true ∧
      Text.isBlankText padding = true ∧ l = indent ++ q.toList ++ padding ∧ IsPattern q := by
  constructor
  · intro h
    obtain ⟨indent, padding, hindent, hpadding, hl⟩ := Text.exists_padded_trim l
    rw [patternOn?] at h
    split at h
    · cases h
    · rename_i hline
      cases h
      rw [not_or] at hline
      refine ⟨indent, padding, hindent, hpadding, by rwa [String.toList_ofList], ?_⟩
      constructor <;> rw [String.toList_ofList]
      · exact hline.1
      · exact hline.2
      · exact fun c hc => Text.not_isBlank_of_head_trim hc
      · exact fun c hc => Text.not_isBlank_of_getLast_trim hc
  · rintro ⟨indent, padding, hindent, hpadding, rfl, hq⟩
    rw [patternOn_padded hindent hpadding, patternOn_of_isPattern hq]

/-! ### Lines one after the other -/

lemma picks_iff : Picks ls qs ↔ ls.filterMap patternOn? = qs := by
  constructor
  · intro h
    induction h with
    | nil => rfl
    | idle hl _ ih => rw [List.filterMap_cons_none (patternOn_eq_none_iff.2 hl), ih]
    | pattern hindent hpadding hq _ ih =>
      have hline := (patternOn_padded hindent hpadding).trans (patternOn_of_isPattern hq)
      rw [List.filterMap_cons_some hline, ih]
  · rintro rfl
    induction ls with
    | nil => exact .nil
    | cons l ls ih =>
      cases hline : patternOn? l with
      | none =>
        rw [List.filterMap_cons_none hline]
        exact .idle (patternOn_eq_none_iff.1 hline) ih
      | some q =>
        rw [List.filterMap_cons_some hline]
        obtain ⟨indent, padding, hindent, hpadding, rfl, hq⟩ := patternOn_eq_some_iff.1 hline
        exact .pattern hindent hpadding hq ih

lemma Relaid.idlesRight {idle : List (List Char)} (hidle : ∀ l ∈ idle, IsIdle l)
    (h : Relaid ls ls') : Relaid ls (idle ++ ls') := by
  induction idle with
  | nil => exact h
  | cons l idle ih =>
    rw [List.forall_mem_cons] at hidle
    exact .idleRight hidle.1 (ih hidle.2)

/-- **Layout.** Lines have the same patterns just when they are the same but for their layout. -/
lemma relaid_iff : Relaid ls ls' ↔ ls.filterMap patternOn? = ls'.filterMap patternOn? := by
  constructor
  · intro h
    induction h with
    | nil => rfl
    | idleLeft hl _ ih => rw [List.filterMap_cons_none (patternOn_eq_none_iff.2 hl), ih]
    | idleRight hl _ ih => rw [List.filterMap_cons_none (patternOn_eq_none_iff.2 hl), ih]
    | padded l hindent hpadding hindent' hpadding' _ ih =>
      rw [List.filterMap_cons, List.filterMap_cons, patternOn_padded hindent hpadding,
        patternOn_padded hindent' hpadding', ih]
  · intro h
    induction ls generalizing ls' with
    | nil =>
      have hidle : ∀ l ∈ ls', IsIdle l := fun l hl =>
        patternOn_eq_none_iff.1 (List.filterMap_eq_nil_iff.1 h.symm l hl)
      simpa using Relaid.nil.idlesRight hidle
    | cons l ls ih =>
      cases hline : patternOn? l with
      | none =>
        rw [List.filterMap_cons_none hline] at h
        exact .idleLeft (patternOn_eq_none_iff.1 hline) (ih h)
      | some q =>
        rw [List.filterMap_cons_some hline] at h
        -- the same pattern comes on the other side behind lines without any
        obtain ⟨idle, l', rest, rfl, hidle, hline', hrest⟩ :=
          List.filterMap_eq_cons_iff.1 h.symm
        obtain ⟨_, _, hindent, hpadding, rfl, -⟩ := patternOn_eq_some_iff.1 hline
        obtain ⟨_, _, hindent', hpadding', rfl, -⟩ := patternOn_eq_some_iff.1 hline'
        exact .idlesRight (fun l hl => patternOn_eq_none_iff.1 (hidle l hl))
          (.padded _ hindent hpadding hindent' hpadding' (ih hrest.symm))

/-! ### The text of an ignore file -/

/-- A line, and the same with blanks behind it. -/
def PaddedBy (l row : List Char) : Prop :=
  ∃ padding, Text.isBlankText padding = true ∧ row = l ++ padding

lemma lines_rows (cs : List Char) :
    ∃ last, (last = [] ∨ last = [[]]) ∧
      List.Forall₂ PaddedBy (Text.lines cs ++ last) (Text.splitAt '\n' cs) := by
  fun_induction Text.lines cs with
  | case1 => exact ⟨[[]], .inr rfl, .cons ⟨[], rfl, rfl⟩ .nil⟩
  | case2 cs ih =>
    obtain ⟨last, hlast, h⟩ := ih
    exact ⟨last, hlast, .cons ⟨[], rfl, rfl⟩ h⟩
  | case3 cs ih =>
    obtain ⟨last, hlast, h⟩ := ih
    have hreturn : Text.splitAt '\n' ('\r' :: '\n' :: cs) = ['\r'] :: Text.splitAt '\n' cs := by
      simp [Text.splitAt]
    rw [hreturn]
    exact ⟨last, hlast, .cons ⟨['\r'], by decide, rfl⟩ h⟩
  | case4 c cs hfeed _ hlines ih =>
    -- the text ends without a line feed
    obtain ⟨last, rfl | rfl, h⟩ := ih
    · rw [hlines] at h
      exact absurd (List.forall₂_nil_left_iff.1 h) (Text.splitAt_ne_nil _ _)
    · rw [hlines] at h
      obtain ⟨row, rest, ⟨padding, hpadding, hrow⟩, hrest, hsplit⟩ :=
        List.forall₂_cons_left_iff.1 h
      obtain rfl := List.forall₂_nil_left_iff.1 hrest
      refine ⟨[], .inl rfl, ?_⟩
      rw [Text.splitAt, if_neg hfeed, hsplit, hrow]
      exact .cons ⟨padding, hpadding, rfl⟩ .nil
  | case5 c cs hfeed _ first later hlines ih =>
    obtain ⟨last, hlast, h⟩ := ih
    rw [hlines] at h
    obtain ⟨row, rest, ⟨padding, hpadding, rfl⟩, hrest, hsplit⟩ := List.forall₂_cons_left_iff.1 h
    refine ⟨last, hlast, ?_⟩
    rw [Text.splitAt, if_neg hfeed, hsplit]
    exact .cons ⟨padding, hpadding, rfl⟩ hrest

lemma filterMap_of_paddedBy (h : List.Forall₂ PaddedBy ls ls') :
    ls.filterMap patternOn? = ls'.filterMap patternOn? := by
  induction h with
  | nil => rfl
  | @cons l _ _ _ hrow _ ih =>
    obtain ⟨padding, hpadding, rfl⟩ := hrow
    have hline : patternOn? (l ++ padding) = patternOn? l :=
      @patternOn_padded l [] padding rfl hpadding
    rw [List.filterMap_cons, List.filterMap_cons, hline, ih]

lemma filterMap_patternOn (ls : List (List Char)) :
    ls.filterMap patternOn? =
      ((ls.map Text.trim).filter fun l => !l.isEmpty && l.head? ≠ some '#').map .ofList := by
  induction ls with
  | nil => rfl
  | cons l ls ih =>
    by_cases hline : Text.trim l = [] ∨ (Text.trim l).head? = some '#'
    · have hnone : patternOn? l = none := if_pos hline
      rw [List.filterMap_cons_none hnone, ih, List.map_cons, List.filter_cons_of_neg]
      simpa [or_iff_not_imp_left] using hline
    · have hsome : patternOn? l = some (.ofList (Text.trim l)) := if_neg hline
      rw [List.filterMap_cons_some hsome, ih, List.map_cons, List.filter_cons_of_pos, List.map_cons]
      simpa [not_or] using hline

lemma patternLines_eq (text : String) :
    patternLines text = (Text.rows text).filterMap patternOn? := by
  obtain ⟨last, hlast, hrows⟩ := lines_rows text.toList
  have hidle : last.filterMap patternOn? = [] := by
    rcases hlast with rfl | rfl <;> rfl
  rw [Text.rows, ← filterMap_of_paddedBy hrows, List.filterMap_append, hidle, List.append_nil,
    filterMap_patternOn, patternLines]

lemma patternLines_append_return (a : String) : patternLines (a ++ "\r") = patternLines a := by
  obtain ⟨before, last, hsplit⟩ := Text.splitAt_append_tail '\n' a.toList
  have hplain : Text.rows a = before ++ [last] := by
    simpa [Text.rows] using hsplit [] List.not_mem_nil
  have hreturn : Text.rows (a ++ "\r") = before ++ [last ++ ['\r']] := by
    simpa [Text.rows] using hsplit ['\r'] (by decide)
  have hline : PaddedBy last (last ++ ['\r']) := ⟨['\r'], by decide, rfl⟩
  rw [patternLines_eq, patternLines_eq, hplain, hreturn, List.filterMap_append,
    List.filterMap_append, filterMap_of_paddedBy (.cons hline .nil)]

lemma patternLines_join (a b : String) {e : String} (he : e ∈ ["\n", "\r\n"]) :
    patternLines (a ++ e ++ b) = patternLines a ++ patternLines b := by
  have hfeed (a : String) : patternLines (a ++ "\n" ++ b) = patternLines a ++ patternLines b := by
    have hrows : Text.rows (a ++ "\n" ++ b) = Text.rows a ++ Text.rows b := by
      simpa [Text.rows] using Text.splitAt_append_sep '\n' a.toList b.toList
    rw [patternLines_eq, patternLines_eq, patternLines_eq, hrows, List.filterMap_append]
  rcases List.mem_pair.1 he with rfl | rfl
  · exact hfeed a
  · have hreturn : a ++ "\r\n" ++ b = a ++ "\r" ++ "\n" ++ b := by
      rw [String.append_assoc, String.append_assoc, String.append_assoc]
      rfl
    rw [hreturn, hfeed, patternLines_append_return]

/-! ### The argument of the command -/

variable {host : Host} {ignore : Option Path} {p : Path}

lemma ignorePatterns_held {text : String} (h : host.Holds p (Text.Utf8.stored text)) :
    ignorePatterns host (some p) = generatedPatterns ++ patternLines text := by
  simp [ignorePatterns, Host.readText_ok_iff.2 h]

lemma ignorePatterns_unreadable (h : ∀ text, ¬ host.Holds p (Text.Utf8.stored text)) :
    ignorePatterns host (some p) = generatedPatterns ++ [] := by
  cases hread : host.readText p with
  | ok text => exact absurd (Host.readText_ok_iff.1 hread) (h text)
  | error e => simp [ignorePatterns, hread]

lemma ignorePatterns_eq_iff :
    ignorePatterns host ignore = generatedPatterns ++ qs ↔ Adds host ignore qs := by
  constructor
  · intro h
    cases ignore with
    | none =>
      obtain rfl : [] = qs := List.append_cancel_left h
      exact .unset
    | some p =>
      by_cases hheld : ∃ text, host.Holds p (Text.Utf8.stored text)
      · obtain ⟨text, htext⟩ := hheld
        rw [ignorePatterns_held htext] at h
        obtain rfl := List.append_cancel_left h
        exact .held htext
      · have hnone := not_exists.1 hheld
        rw [ignorePatterns_unreadable hnone] at h
        obtain rfl := List.append_cancel_left h
        exact .unreadable hnone
  · rintro (h | h | _)
    · exact ignorePatterns_held h
    · exact ignorePatterns_unreadable h
    · rfl

lemma notMem_generatedPatterns : ∀ g ∈ generatedPatterns, ',' ∉ g.toList := by decide

lemma items_ignore (qs : List String) :
    Text.items (String.intercalate "," (generatedPatterns ++ qs)) =
      generatedPatterns ++ qs.flatMap Text.items := by
  rw [Text.items_intercalate (by simp [generatedPatterns]), List.flatMap_append,
    Text.flatMap_items notMem_generatedPatterns]

lemma items_ignore_eq_iff (qs : List String) :
    Text.items (String.intercalate "," (generatedPatterns ++ qs)) = generatedPatterns ++ qs ↔
      ∀ q ∈ qs, ',' ∉ q.toList := by
  rw [Text.items_intercalate_eq_iff (by simp [generatedPatterns]), List.forall_mem_append,
    and_iff_right notMem_generatedPatterns]

/-- **What to pass over.** The patterns for generated files, and behind them those on the lines of
the ignore file, which do not depend on how the lines are laid out. Commas apart, they can be read
off the command; those for generated files always can. -/
theorem ignore_list_faithful (host : Host) :
    (∀ ignore qs, ignorePatterns host ignore = generatedPatterns ++ qs ↔ Adds host ignore qs) ∧
    (∀ text qs, patternLines text = qs ↔ Picks (Text.rows text) qs) ∧
    (∀ a b, patternLines a = patternLines b ↔ Relaid (Text.rows a) (Text.rows b)) ∧
    (∀ a b, ∀ e ∈ ["\n", "\r\n"],
      patternLines (a ++ e ++ b) = patternLines a ++ patternLines b) ∧
    ∀ c targets cmd, command host c targets = .ok cmd → ∃ list qs,
      ToolCommand.assignedIn? "--ignore" cmd.arguments = some list ∧
      Adds host c.phpcs.ignorePath qs ∧
      (Text.items list = generatedPatterns ++ qs ↔ ∀ q ∈ qs, ',' ∉ q.toList) ∧
      (Text.items list).take 9 = generatedPatterns := by
  refine ⟨fun ignore qs => ignorePatterns_eq_iff, fun text qs => ?_, fun a b => ?_,
    fun a b e he => patternLines_join a b he, fun c targets cmd h => ?_⟩
  · rw [patternLines_eq, picks_iff]
  · rw [patternLines_eq, patternLines_eq, relaid_iff]
  · obtain ⟨qs, hqs⟩ : ∃ qs, ignorePatterns host c.phpcs.ignorePath = generatedPatterns ++ qs :=
      ⟨_, rfl⟩
    refine ⟨_, qs, ignore_of_command h, ignorePatterns_eq_iff.1 hqs, ?_, ?_⟩
    · rw [hqs]
      exact items_ignore_eq_iff qs
    · rw [hqs, items_ignore]
      rfl

/-- An ignore file with a comment behind blanks, an empty line, and a comma in a pattern. -/
def commaText : String := "  # own\r\n\tlib/*\r\n\r\na,b/*"

/-- A machine with a coding standard and the ignore file. -/
def commaHost : Host where
  tree := .directory [] [.directory "Drupal".toList [],
    .file ".phpcsignore".toList (Text.Utf8.stored commaText)]
  workingDirectory := []
  pluginHome := none
  noColor := false
  programDirectory := .ofString "/"

/-- A set-up with both. -/
def commaConfiguration : Configuration where
  projectRoot := .ofString "/"
  pluginDirectory := .ofString "/"
  settingsPath := none
  output := "human"
  eslint := .eslintDefault (.ofString "/")
  phpcs := ⟨.ofString "/Drupal", some (.ofString "/.phpcsignore"), [], .ofList ["php"]⟩
  stripAdvertisement := true
  tools := ⟨"eslint", "php", "phpcs"⟩
  unsupportedTarget := .skip
  failOnViolations := true

/-- The pattern with a comma cannot be read off the command. -/
theorem ignore_list_of_comma :
    ignorePatterns commaHost commaConfiguration.phpcs.ignorePath =
      generatedPatterns ++ ["lib/*", "a,b/*"] ∧
    ∃ cmd list, command commaHost commaConfiguration [] = .ok cmd ∧
      ToolCommand.assignedIn? "--ignore" cmd.arguments = some list ∧
      Text.items list ≠ generatedPatterns ++ ["lib/*", "a,b/*"] ∧
      (Text.items list).take 9 = generatedPatterns := by
  obtain ⟨hadds, -, -, -, hcommand⟩ := ignore_list_faithful commaHost
  have hheld : commaHost.Holds (.ofString "/.phpcsignore") (Text.Utf8.stored commaText) :=
    ⟨".phpcsignore".toList, by cbv⟩
  have hpatterns : patternLines commaText = ["lib/*", "a,b/*"] := by cbv
  have hignore : ignorePatterns commaHost commaConfiguration.phpcs.ignorePath =
      generatedPatterns ++ ["lib/*", "a,b/*"] :=
    hpatterns ▸ (hadds _ _).2 (.held hheld)
  have hthere : commaHost.pathExists commaConfiguration.phpcs.configPath = true := by cbv
  obtain ⟨cmd, hcmd⟩ : ∃ cmd, command commaHost commaConfiguration [] = .ok cmd := by
    simp [command, hthere]
  obtain ⟨list, qs, hlist, hqs, hiff, htake⟩ := hcommand _ _ _ hcmd
  obtain rfl : ["lib/*", "a,b/*"] = qs :=
    List.append_cancel_left (hignore.symm.trans ((hadds _ _).2 hqs))
  exact ⟨hignore, cmd, list, hcmd, hlist, mt hiff.1 (by decide), htake⟩

end CodeSniffer

end SiteLint
