import SiteLint.Console.Lines
import SiteLint.Proofs.PathSpelling
import SiteLint.Proofs.PathText
import SiteLint.Proofs.RulePaths

/-!
Paths as a reader in the working directory sees them.

A path from the top is shown by the steps to it from the working directory: two dots for each name
of the directory that the path does not share, and then the rest of the path. Put after the working
directory again, these steps lead to the same place, so that no two places are shown alike.
-/

namespace SiteLint

namespace Component

/-- The names that lead to a place, after a step from there. Two dots take the last name back, and
there is nothing above the top. -/
def lead (ns : List Name) : Component → List Name
  | root => []
  | here => ns
  | up => ns.dropLast
  | name n => ns ++ [n]

/-- The component is read from a piece between slashes. -/
structure IsStep (c : Component) : Prop where
  reads : ofPiece? c.bytes = some c
  noSlash : slash ∉ c.bytes

lemma isStep_of_piece {piece : List UInt8} {c : Component} (hpiece : slash ∉ piece)
    (h : ofPiece? piece = some c) : c.IsStep := by
  have hbytes := bytes_of_piece h
  exact ⟨by rw [hbytes, h], by rwa [hbytes]⟩

lemma isStep_up : IsStep up := ⟨rfl, by decide⟩

lemma IsStep.bytes_ne_nil {c : Component} (hc : c.IsStep) : c.bytes ≠ [] := by
  intro hempty
  have hreads := hc.reads
  rw [hempty] at hreads
  cases hreads

lemma IsStep.up_or_name {c : Component} (hc : c.IsStep) : c = up ∨ ∃ n, c = name n := by
  cases c with
  | root => exact absurd (List.mem_singleton_self slash) hc.noSlash
  | here => cases hc.reads
  | up => exact .inl rfl
  | name n => exact .inr ⟨n, rfl⟩

lemma foldl_lead_names (ns ms : List Name) : (ms.map name).foldl lead ns = ns ++ ms := by
  induction ms generalizing ns with
  | nil => simp
  | cons m ms ih =>
    rw [List.map_cons, List.foldl_cons, ih, lead, List.append_assoc, List.singleton_append]

lemma foldl_lead_ups (ns ms : List Name) :
    (List.replicate ms.length up).foldl lead (ns ++ ms) = ns := by
  induction ms using List.reverseRecOn with
  | nil => simp
  | append_singleton ms m ih =>
    rw [List.length_append, List.length_singleton, List.replicate_succ, List.foldl_cons, lead,
      ← List.append_assoc, List.dropLast_concat, ih]

end Component

namespace Path

/-- The names that lead from the top to where a path from the top leads, read off its text alone. -/
def place (p : Path) : List Name := p.components.foldl Component.lead []

/-- The path from the top without dots. -/
def normal (p : Path) : Path := ofLocation p.place

variable {p wd : Path} {cs path base : List Component} {names : List Name}

lemma exists_steps (h : p.isAbsolute = true) :
    ∃ cs, p.components = .root :: cs ∧ ∀ c ∈ cs, c.IsStep := by
  refine ⟨_, components_absolute h, fun c hc => ?_⟩
  obtain ⟨piece, hpiece, hreads⟩ := List.mem_filterMap.1 hc
  exact Component.isStep_of_piece (mem_solidPieces hpiece).2 hreads

lemma exists_names (h : ∀ c ∈ cs, c.IsStep) (hup : .up ∉ cs) :
    ∃ names : List Name, cs = names.map .name := by
  induction cs with
  | nil => exact ⟨[], rfl⟩
  | cons c cs ih =>
    rw [List.forall_mem_cons] at h
    rw [List.mem_cons, not_or] at hup
    obtain ⟨n, rfl⟩ := h.1.up_or_name.resolve_left (Ne.symm hup.1)
    obtain ⟨names, rfl⟩ := ih h.2 hup.2
    exact ⟨n :: names, rfl⟩

/-! ### The text of steps -/

lemma ofComponents_concat (cs : List Component) (c : Component) :
    ofComponents (cs ++ [c]) = (ofComponents cs).child c.bytes := by
  rw [ofComponents, List.foldl_append]
  rfl

lemma isAbsolute_ofComponents (h : ∀ c ∈ cs, c.IsStep) : (ofComponents cs).isAbsolute = false := by
  induction cs using List.reverseRecOn with
  | nil => rfl
  | append_singleton cs c ih =>
    rw [List.forall_mem_append, List.forall_mem_singleton] at h
    rw [ofComponents_concat, child, isAbsolute_join, ih h.1, isAbsolute_piece h.2.noSlash,
      Bool.or_false]

lemma bytes_ofComponents_eq_nil_iff (h : ∀ c ∈ cs, c.IsStep) :
    (ofComponents cs).bytes = [] ↔ cs = [] := by
  rcases List.eq_nil_or_concat' cs with rfl | ⟨cs, c, rfl⟩
  · exact ⟨fun _ => rfl, fun _ => rfl⟩
  · rw [List.forall_mem_append, List.forall_mem_singleton] at h
    have hne : (ofComponents (cs ++ [c])).bytes ≠ [] := by
      rw [ofComponents_concat, child, join, isAbsolute_piece h.2.noSlash, if_neg Bool.false_ne_true]
      split <;> simp [h.2.bytes_ne_nil]
    simp [hne]

lemma solidPieces_ofComponents (h : ∀ c ∈ cs, c.IsStep) :
    (ofComponents cs).solidPieces = cs.map Component.bytes := by
  induction cs using List.reverseRecOn with
  | nil => rfl
  | append_singleton cs c ih =>
    rw [List.forall_mem_append, List.forall_mem_singleton] at h
    have hlast : [c.bytes].filter (· ≠ []) = [c.bytes] := by simp [h.2.bytes_ne_nil]
    by_cases hcs : cs = []
    · subst hcs
      have hfirst : ofComponents [c] = ⟨c.bytes⟩ := by
        simp [ofComponents, join, isAbsolute_piece h.2.noSlash]
      rw [List.nil_append, hfirst, solidPieces, pieces, Text.splitAt_of_notMem h.2.noSlash, hlast]
      rfl
    · have hne := mt (bytes_ofComponents_eq_nil_iff h.1).1 hcs
      rw [ofComponents_concat, solidPieces_child_piece hne h.2.noSlash, hlast, ih h.1,
        List.map_append, List.map_singleton]

lemma components_join_ofComponents (hwd : wd.isAbsolute = true) (h : ∀ c ∈ cs, c.IsStep) :
    (wd.join (ofComponents cs)).components = wd.components ++ cs := by
  have hjoin : (wd.join (ofComponents cs)).isAbsolute = true := by simp [hwd]
  have hreads : (cs.map Component.bytes).filterMap Component.ofPiece? = cs := by
    rw [List.filterMap_map]
    exact (List.filterMap_congr fun c hc => (h c hc).reads).trans List.filterMap_some
  rw [components_absolute hjoin, components_absolute hwd,
    solidPieces_join (bytes_ne_nil_of_isAbsolute hwd) (isAbsolute_ofComponents h),
    solidPieces_ofComponents h, List.filterMap_append, hreads, List.cons_append]

/-! ### Steps from one path to another -/

lemma stepsFrom_nil (together : Bool) (base : List Component) :
    stepsFrom together [] base = some (List.replicate base.length .up) := by
  induction base generalizing together with
  | nil => rfl
  | cons c base ih => rw [stepsFrom, ih, Option.map_some, List.length_cons, List.replicate_succ]

lemma exists_stepsFrom (path : List Component) (names : List Name) :
    ∃ shared rest above, path = shared.map .name ++ rest ∧ names = shared ++ above ∧
      (∀ n ∈ above.head?, .name n ∉ rest.head?) ∧
      stepsFrom true path (names.map .name) =
        some (List.replicate above.length .up ++ rest) := by
  induction path generalizing names with
  | nil => exact ⟨[], [], names, rfl, rfl, by simp, by simp [stepsFrom_nil]⟩
  | cons c path ih =>
    cases names with
    | nil => exact ⟨[], c :: path, [], rfl, rfl, by simp, rfl⟩
    | cons n names =>
      by_cases hc : c = .name n
      · obtain ⟨shared, rest, above, hpath, hnames, hpart, hsteps⟩ := ih names
        refine ⟨n :: shared, rest, above, ?_, ?_, hpart, ?_⟩
        · rw [hpath, hc, List.map_cons, List.cons_append]
        · rw [hnames, List.cons_append]
        · rw [List.map_cons, stepsFrom, if_pos ⟨rfl, hc⟩, hsteps]
      · refine ⟨[], c :: path, n :: names, rfl, rfl, by simpa using hc, ?_⟩
        simp [stepsFrom, hc, List.replicate_succ, Function.comp_def]

lemma isStep_of_mem_ups {rest : List Component} (k : Nat) (hrest : ∀ c ∈ rest, c.IsStep) :
    ∀ c ∈ List.replicate k Component.up ++ rest, c.IsStep := by
  rw [List.forall_mem_append]
  refine ⟨fun c hc => ?_, hrest⟩
  obtain rfl := List.eq_of_mem_replicate hc
  exact Component.isStep_up

/-- **Steps from the working directory.** -/
lemma exists_shownFrom (hwd : wd.isAbsolute = true) (hup : .up ∉ wd.components)
    (hp : p.isAbsolute = true) :
    ∃ (shared above : List Name) (rest : List Component),
      wd.components = .root :: (shared ++ above).map .name ∧
      p.components = .root :: (shared.map .name ++ rest) ∧
      (∀ n ∈ above.head?, .name n ∉ rest.head?) ∧ (∀ c ∈ rest, c.IsStep) ∧
      p.shownFrom wd = if above = [] ∧ rest = [] then p
        else ofComponents (List.replicate above.length .up ++ rest) := by
  obtain ⟨bs, hbs, hbase⟩ := exists_steps hwd
  obtain ⟨cs, hcs, hsteps⟩ := exists_steps hp
  rw [hbs, List.mem_cons, not_or] at hup
  obtain ⟨names, rfl⟩ := exists_names hbase hup.2
  obtain ⟨shared, rest, above, rfl, rfl, hpart, hfrom⟩ := exists_stepsFrom cs names
  have hrest : ∀ c ∈ rest, c.IsStep := (List.forall_mem_append.1 hsteps).2
  have hall := isStep_of_mem_ups above.length hrest
  refine ⟨shared, above, rest, hbs, hcs, hpart, hrest, ?_⟩
  have hrelative : p.relativeTo? wd =
      some (ofComponents (List.replicate above.length .up ++ rest)) := by
    rw [relativeTo?, if_pos (hp.trans hwd.symm), hbs, hcs]
    simp only [dropHere, stepsFrom, true_and, if_true, hfrom, Option.map_some]
  rw [shownFrom, if_pos hp, hrelative]
  simp only [bytes_ofComponents_eq_nil_iff hall, List.append_eq_nil_iff, List.replicate_eq_nil_iff,
    List.length_eq_zero_iff]

lemma shownFrom_cases (hwd : wd.isAbsolute = true) (hup : .up ∉ wd.components)
    (hp : p.isAbsolute = true) :
    (p.shownFrom wd = p ∧ p.components = wd.components) ∨
    (p.components ≠ wd.components ∧ (p.shownFrom wd).bytes ≠ [] ∧
      (p.shownFrom wd).isAbsolute = false) := by
  obtain ⟨shared, above, rest, hbase, hpath, hpart, hrest, hshown⟩ := exists_shownFrom hwd hup hp
  by_cases hsame : above = [] ∧ rest = []
  · rw [if_pos hsame] at hshown
    obtain ⟨rfl, rfl⟩ := hsame
    exact .inl ⟨hshown, by rw [hpath, hbase, List.append_nil, List.append_nil]⟩
  · have hsteps := isStep_of_mem_ups above.length hrest
    rw [if_neg hsame] at hshown
    refine .inr ⟨fun heq => hsame ?_, ?_, ?_⟩
    · rw [hpath, hbase, List.map_append, List.cons.injEq, List.append_cancel_left_eq] at heq
      obtain rfl := heq.2
      cases above with
      | nil => exact ⟨rfl, rfl⟩
      | cons n above => exact absurd rfl (hpart n rfl)
    · rw [hshown, Ne, bytes_ofComponents_eq_nil_iff hsteps]
      simpa using hsame
    · rw [hshown, isAbsolute_ofComponents hsteps]

lemma place_join_shownFrom (hwd : wd.isAbsolute = true) (hup : .up ∉ wd.components)
    (hp : p.isAbsolute = true) : (wd.join (p.shownFrom wd)).place = p.place := by
  obtain ⟨shared, above, rest, hbase, hpath, hpart, hrest, hshown⟩ := exists_shownFrom hwd hup hp
  rw [hshown]
  split
  · rw [join, if_pos hp]
  · have hsteps := isStep_of_mem_ups above.length hrest
    rw [place, components_join_ofComponents hwd hsteps, hbase, place, hpath]
    simp only [List.cons_append, List.foldl_cons, List.foldl_append, List.map_append,
      Component.lead, Component.foldl_lead_names, Component.foldl_lead_ups]

lemma normal_of_shownFrom_eq {q : Path} (hwd : wd.isAbsolute = true) (hup : .up ∉ wd.components)
    (hp : p.isAbsolute = true) (hq : q.isAbsolute = true)
    (h : p.shownFrom wd = q.shownFrom wd) : p.normal = q.normal := by
  rw [normal, normal, ← place_join_shownFrom hwd hup hp, h, place_join_shownFrom hwd hup hq]

lemma IsText.shownFrom (h : p.IsText) (hwd : wd.isAbsolute = true) (hup : .up ∉ wd.components) :
    (p.shownFrom wd).IsText := by
  cases hp : p.isAbsolute with
  | false => rwa [Path.shownFrom, hp, if_neg Bool.false_ne_true]
  | true =>
    obtain ⟨shared, above, rest, -, hpath, -, -, hshown⟩ := exists_shownFrom hwd hup hp
    rw [hshown]
    split_ifs
    · exact h
    · refine isText_ofComponents (List.forall_mem_append.2 ⟨fun c hc => ?_, fun c hc => ?_⟩)
      · obtain rfl := List.eq_of_mem_replicate hc
        exact ⟨['.', '.'], rfl⟩
      · exact isText_iff_components.1 h c (by simp [hpath, hc])

end Path

namespace Console

namespace Style

lemma paint_injective (s : Style) (colours : Bool) :
    Function.Injective (s.paint colours) := by
  intro a b h
  cases colours with
  | false => exact h
  | true =>
    have hchars := congrArg String.toList h
    exact String.toList_inj.1 (by simpa [paint] using hchars)

lemma good_ne_bad (colours : Bool) (a b : String) :
    Style.good.paint colours ("✔ " ++ a) ≠ Style.bad.paint colours ("✖ " ++ b) := by
  intro h
  have hchars := congrArg String.toList h
  cases colours <;> simp [paint, good, bad, sequence, escape] at hchars

end Style

lemma shownFrom_of_header {wd : Path} (hwd : wd.isAbsolute = true)
    (hup : Component.up ∉ wd.components) {colours : Bool} {f g : FileResult}
    (h : header wd colours f = header wd colours g) :
    (Path.ofString f.path).shownFrom wd = (Path.ofString g.path).shownFrom wd := by
  have hmark (mark : String) : Function.Injective (mark ++ ·) := fun a b h => by
    simpa using h
  have htext (text : String) : ((Path.ofString text).shownFrom wd).IsText :=
    Path.IsText.shownFrom ⟨text, rfl⟩ hwd hup
  refine (htext f.path).toString_inj (htext g.path) ?_
  unfold header at h
  dsimp only at h
  split at h <;> split at h
  · exact hmark _ (Style.paint_injective _ _ h)
  · exact absurd h (Style.good_ne_bad _ _ _)
  · exact absurd h.symm (Style.good_ne_bad _ _ _)
  · exact hmark _ (Style.paint_injective _ _ h)

/-- **Shown paths.** A path that is not from the top is shown as it is. What is shown of one from
the top is never empty, and put after the working directory it leads to the same place, where dots
are taken for what they say. It is a relative path, but for the working directory itself. The steps
to a path that is a text are a text again, whatever the working directory is called. So two places
are never shown alike, nor are the lines of files in them. -/
theorem shown_path_leads_back (wd : Path) (hwd : wd.isAbsolute = true)
    (hup : Component.up ∉ wd.components) :
    (∀ p : Path, p.isAbsolute = false → p.shownFrom wd = p) ∧
    (∀ p : Path, p.isAbsolute = true →
      (p.shownFrom wd).bytes ≠ [] ∧ (wd.join (p.shownFrom wd)).normal = p.normal ∧
      ((p.shownFrom wd).isAbsolute = true ↔ p.same wd = true)) ∧
    (∀ p : Path, p.IsText → (p.shownFrom wd).IsText) ∧
    (∀ p q : Path, p.isAbsolute = true → q.isAbsolute = true → p.normal ≠ q.normal →
      p.shownFrom wd ≠ q.shownFrom wd) ∧
    ∀ (colours : Bool) (f g : FileResult), (Path.ofString f.path).isAbsolute = true →
      (Path.ofString g.path).isAbsolute = true →
      (Path.ofString f.path).normal ≠ (Path.ofString g.path).normal →
      header wd colours f ≠ header wd colours g := by
  have halike {p q : Path} := Path.normal_of_shownFrom_eq (p := p) (q := q) hwd hup
  refine ⟨fun p hp => ?_, fun p hp => ⟨?_, ?_, ?_⟩, fun p hp => hp.shownFrom hwd hup,
    fun p q hp hq => mt (halike hp hq),
    fun colours f g hf hg hne h => hne (halike hf hg (shownFrom_of_header hwd hup h))⟩
  · rw [Path.shownFrom, hp, if_neg Bool.false_ne_true]
  · rcases Path.shownFrom_cases hwd hup hp with ⟨hshown, -⟩ | ⟨-, hne, -⟩
    · rw [hshown]
      exact Path.bytes_ne_nil_of_isAbsolute hp
    · exact hne
  · rw [Path.normal, Path.place_join_shownFrom hwd hup hp, Path.normal]
  · rcases Path.shownFrom_cases hwd hup hp with ⟨hshown, hsame⟩ | ⟨hdiffer, -, hrelative⟩
    · simp [hshown, hp, Path.same, hsame]
    · simp [hrelative, Path.same, hdiffer]

/-- A path beside the working directory, with dots in it, and one beneath. -/
theorem shown_path_of_dotted :
    let wd : Path := .ofString "/srv/site"
    let p : Path := .ofString "/srv/lib/..//./a.php"
    let q : Path := .ofString "/srv/site/a.php"
    wd.isAbsolute = true ∧ .up ∉ wd.components ∧ p.isAbsolute = true ∧ q.isAbsolute = true ∧
      p.shownFrom wd = .ofString "../lib/../a.php" ∧ q.shownFrom wd = .ofString "a.php" ∧
      p.normal = .ofString "/srv/a.php" ∧ (wd.join (p.shownFrom wd)).normal = p.normal ∧
      ∀ colours, header wd colours ⟨p.toString, []⟩ ≠ header wd colours ⟨q.toString, []⟩ := by
  intro wd p q
  have hwd : wd.isAbsolute = true := by decide
  have hup : .up ∉ wd.components := by decide
  have hp : p.isAbsolute = true := by decide
  have hq : q.isAbsolute = true := by decide
  have hnormal : p.normal = .ofString "/srv/a.php" := by decide
  obtain ⟨-, hback, -, -, hheader⟩ := shown_path_leads_back wd hwd hup
  refine ⟨hwd, hup, hp, hq, by decide, by decide, hnormal, (hback p hp).2.1, fun colours => ?_⟩
  have hpath : Path.ofString p.toString = p := Path.reread_eq_iff.2 ⟨_, rfl⟩
  have hpath' : Path.ofString q.toString = q := Path.reread_eq_iff.2 ⟨_, rfl⟩
  refine hheader colours ⟨p.toString, []⟩ ⟨q.toString, []⟩ ?_ ?_ ?_
  · rwa [hpath]
  · rwa [hpath']
  · rw [hpath, hpath']
    decide

end Console

end SiteLint
