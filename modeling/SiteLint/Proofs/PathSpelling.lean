import SiteLint.Proofs.PathText
import SiteLint.Proofs.TargetResolution

/-!
Different spellings of one path.

Slashes too many stand between empty pieces, and what counts of a path are its solid pieces. Written
with one slash between them they make the plain spelling. A path that is put together from pieces is
spelled plainly, but for a slash at its end.
-/

namespace SiteLint

namespace Text

variable {α : Type} {sep : α}

lemma glue_cons {p : List α} {ps : List (List α)} (hps : ps ≠ []) :
    glue sep (p :: ps) = p ++ sep :: glue sep ps := by
  obtain ⟨q, ps, rfl⟩ := List.exists_cons_of_ne_nil hps
  rfl

lemma glue_append {ps qs : List (List α)} (hps : ps ≠ []) (hqs : qs ≠ []) :
    glue sep (ps ++ qs) = glue sep ps ++ sep :: glue sep qs := by
  induction ps with
  | nil => exact absurd rfl hps
  | cons p ps ih =>
    cases ps with
    | nil => exact glue_cons hqs
    | cons q ps =>
      have hne : (q :: ps) ++ qs ≠ [] := by simp
      rw [List.cons_append, glue_cons hne, ih (List.cons_ne_nil q ps),
        glue_cons (List.cons_ne_nil q ps), List.append_assoc, List.cons_append]

lemma encode_glue (ps : List (List Char)) :
    Utf8.encode (glue '/' ps) = glue slash (ps.map Utf8.encode) := by
  induction ps with
  | nil => rfl
  | cons p ps ih =>
    cases ps with
    | nil => rfl
    | cons q ps =>
      rw [glue_cons (List.cons_ne_nil q ps), Utf8.encode_append, Utf8.encode_cons, ih, List.map_cons,
        List.map_cons, List.map_cons, glue_cons (List.cons_ne_nil _ _)]
      rfl

lemma getLast_glue {ps : List (List α)} {p : List α} (hne : p ≠ []) (hp : sep ∉ p) :
    (sep :: glue sep (ps ++ [p])).getLast? ≠ some sep := by
  have hends : ∃ front, sep :: glue sep (ps ++ [p]) = front ++ p := by
    cases ps with
    | nil => exact ⟨[sep], rfl⟩
    | cons q ps =>
      refine ⟨sep :: (glue sep (q :: ps) ++ [sep]), ?_⟩
      rw [glue_append (List.cons_ne_nil q ps) (List.cons_ne_nil p [])]
      simp [glue]
  obtain ⟨front, hfront⟩ := hends
  intro hlast
  rw [hfront, List.getLast?_append_of_ne_nil _ hne] at hlast
  exact hp (List.mem_of_getLast? hlast)

lemma glue_sublist {ps qs : List (List α)} (h : ps.Sublist qs) :
    (glue sep ps).Sublist (glue sep qs) := by
  induction h with
  | slnil => exact List.Sublist.slnil
  | @cons ps qs q h ih =>
    cases qs with
    | nil =>
      obtain rfl : ps = [] := List.sublist_nil.1 h
      exact List.nil_sublist _
    | cons r qs =>
      rw [glue_cons (List.cons_ne_nil r qs)]
      exact (ih.cons sep).trans (List.sublist_append_right _ _)
  | @cons_cons ps qs q h ih =>
    cases ps with
    | nil =>
      cases qs with
      | nil => exact List.Sublist.refl _
      | cons r qs =>
        rw [glue_cons (List.cons_ne_nil r qs)]
        exact List.sublist_append_left _ _
    | cons p ps =>
      have hne : qs ≠ [] := by
        rintro rfl
        cases h
      rw [glue_cons (List.cons_ne_nil p ps), glue_cons hne]
      exact (List.Sublist.refl q).append (ih.cons_cons sep)

variable [DecidableEq α]

lemma trim_glue {ps : List (List α)} {p : List α} (hne : p ≠ []) (hp : sep ∉ p) :
    ((sep :: glue sep (ps ++ [p])).reverse.dropWhile (· = sep)).reverse =
      sep :: glue sep (ps ++ [p]) := by
  have hlast := @getLast_glue α sep ps p hne hp
  refine List.rdropWhile_eq_self_iff.2 fun hbytes => ?_
  rw [List.getLast?_eq_some_getLast hbytes] at hlast
  simpa using hlast

lemma glue_splitAt (xs : List α) : glue sep (splitAt sep xs) = xs := by
  induction xs with
  | nil => rfl
  | cons x xs ih =>
    obtain ⟨p, ps, hsplit⟩ := List.exists_cons_of_ne_nil (splitAt_ne_nil sep xs)
    rw [hsplit] at ih
    rw [splitAt, hsplit]
    split
    · rename_i hsep
      rw [glue_cons (List.cons_ne_nil p ps), ih, hsep]
      rfl
    · cases ps with
      | nil =>
        obtain rfl : p = xs := ih
        rfl
      | cons q ps =>
        rw [glue_cons (List.cons_ne_nil q ps)] at ih ⊢
        rw [← ih, List.cons_append]

lemma splitAt_glue {ps : List (List α)} (hps : ps ≠ []) (h : ∀ p ∈ ps, sep ∉ p) :
    splitAt sep (glue sep ps) = ps := by
  induction ps with
  | nil => exact absurd rfl hps
  | cons p ps ih =>
    rw [List.forall_mem_cons] at h
    cases ps with
    | nil => exact splitAt_of_notMem h.1
    | cons q ps =>
      rw [glue_cons (List.cons_ne_nil q ps), splitAt_append_sep, splitAt_of_notMem h.1,
        ih (List.cons_ne_nil q ps) h.2, List.singleton_append]

end Text

lemma Component.bytes_of_piece {piece : List UInt8} {c : Component} (h : ofPiece? piece = some c) :
    c.bytes = piece := by
  unfold ofPiece? at h
  split at h
  · cases h
  · split at h
    · rename_i hup
      cases h
      exact hup.symm
    · cases h
      rfl

namespace Path

/-! ### Texts that can be looked up -/

lemma bytes_ne_nil_of_isAbsolute {p : Path} (h : p.isAbsolute = true) : p.bytes ≠ [] := by
  intro hempty
  simp [isAbsolute, hempty] at h

/-- The text of the path can be looked up. -/
structure Admissible (p : Path) : Prop where
  noNul : 0 ∉ p.bytes
  nonempty : p.bytes ≠ []
  short : p.bytes.length < Path.limit

lemma Admissible.of_sublist {p q : Path} (hq : q.Admissible) (h : p.bytes.Sublist q.bytes)
    (hp : p.bytes ≠ []) : p.Admissible :=
  ⟨fun hnul => hq.noNul (h.subset hnul), hp, h.length_le.trans_lt hq.short⟩

/-! ### Plain spelling -/

/-- The path from the top with one slash between its pieces. -/
def plain (p : Path) : Path := ofLocation p.solidPieces

lemma solidPieces_append_piece (xs ys : List UInt8) :
    (⟨xs ++ slash :: ys⟩ : Path).solidPieces =
      (⟨xs⟩ : Path).solidPieces ++ (⟨ys⟩ : Path).solidPieces := by
  simp [solidPieces, pieces, Text.splitAt_append_sep]

lemma solidPieces_join {p q : Path} (hp : p.bytes ≠ []) (hq : q.isAbsolute = false) :
    (p.join q).solidPieces = p.solidPieces ++ q.solidPieces := by
  obtain ⟨bs, hjoin, hbs⟩ := bytes_join_eq hp hq
  have hpath : p.join q = ⟨bs ++ slash :: q.bytes⟩ := congrArg Path.mk hjoin
  have hsolid : p.solidPieces = (⟨bs⟩ : Path).solidPieces := by
    rcases hbs with hbs | hbs
    · rw [← solidPieces_append_slash bs, ← hbs]
    · rw [← hbs]
  rw [hpath, solidPieces_append_piece, hsolid]

lemma mem_solidPieces {p : Path} {n : Name} (h : n ∈ p.solidPieces) : n ≠ [] ∧ slash ∉ n := by
  obtain ⟨hn, hne⟩ := List.mem_filter.1 h
  exact ⟨by simpa using hne, Text.notMem_of_mem_splitAt hn⟩

lemma solidPieces_ofLocation {ns : List Name} (hns : ∀ n ∈ ns, slash ∉ n) :
    (ofLocation ns).solidPieces = ns.filter (· ≠ []) := by
  cases ns with
  | nil => rfl
  | cons n ns =>
    have hsplit : (ofLocation (n :: ns)).pieces = [] :: n :: ns := by
      rw [pieces, ofLocation, Text.splitAt, if_pos rfl,
        Text.splitAt_glue (List.cons_ne_nil n ns) hns]
    rw [solidPieces, hsplit, List.filter_cons_of_neg (by simp)]

lemma components_absolute {p : Path} (h : p.isAbsolute = true) :
    p.components = .root :: p.solidPieces.filterMap Component.ofPiece? := by
  rw [components, if_pos h, solidPieces, List.filterMap_filter]
  refine congrArg (Component.root :: ·) (List.filterMap_congr fun piece _ => ?_)
  by_cases hempty : piece = [] <;> simp [hempty, Component.ofPiece?]

lemma components_plain {p : Path} (h : p.isAbsolute = true) :
    p.plain.components = p.components := by
  have hpieces : p.plain.solidPieces = p.solidPieces := by
    rw [plain, solidPieces_ofLocation fun n hn => (mem_solidPieces hn).2]
    exact List.filter_eq_self.2 fun n hn => by simpa using (mem_solidPieces hn).1
  have hplain : p.plain.isAbsolute = true := isAbsolute_ofLocation _
  rw [components_absolute h, components_absolute hplain, hpieces]

/-! ### Texts, by their pieces -/

lemma isText_iff_pieces {p : Path} : p.IsText ↔ ∀ n ∈ p.pieces, Name.IsText n := by
  constructor
  · rintro ⟨text, rfl⟩ n hn
    rw [pieces, ofString, Text.Utf8.splitAt_encode] at hn
    obtain ⟨cs, -, rfl⟩ := List.mem_map.1 hn
    exact ⟨cs, rfl⟩
  · intro h
    refine isText_iff.2 ⟨Text.glue '/' (p.pieces.map Text.Utf8.lenientText), ?_⟩
    rw [Text.encode_glue, Name.encode_lenientText h, pieces, Text.glue_splitAt]

lemma isText_iff_components {p : Path} : p.IsText ↔ ∀ c ∈ p.components, Name.IsText c.bytes := by
  rw [isText_iff_pieces]
  constructor
  · intro h c hc
    rcases List.mem_append.1 hc with hc | hc
    · split at hc
      · obtain rfl := List.mem_singleton.1 hc
        exact ⟨['/'], rfl⟩
      · split at hc
        · obtain rfl := List.mem_singleton.1 hc
          exact ⟨['.'], rfl⟩
        · cases hc
    · obtain ⟨n, hn, hpiece⟩ := List.mem_filterMap.1 hc
      rw [Component.bytes_of_piece hpiece]
      exact h n hn
  · intro h n hn
    cases hpiece : Component.ofPiece? n with
    | none =>
      have hidle : n = [] ∨ n = [dot] := by
        unfold Component.ofPiece? at hpiece
        split at hpiece
        · assumption
        · split at hpiece <;> cases hpiece
      rcases hidle with rfl | rfl
      · exact ⟨[], rfl⟩
      · exact ⟨['.'], rfl⟩
    | some c =>
      rw [← Component.bytes_of_piece hpiece]
      exact h c (List.mem_append_right _ (List.mem_filterMap.2 ⟨n, hn, hpiece⟩))

/-! ### Paths put together from pieces -/

/-- The path has the text of the names from the top, and maybe a slash more. -/
inductive Spells (ns : List Name) : Path → Prop
  | plain : Spells ns (ofLocation ns)
  | slashed (hns : ns ≠ []) : Spells ns ⟨(ofLocation ns).bytes ++ [slash]⟩

variable {ns : List Name} {p : Path} {n : Name}

lemma bytes_child_of_slash (hp : p.bytes.getLast? = some slash) (hn : slash ∉ n) :
    (p.child n).bytes = p.bytes ++ n := by
  have hrelative := isAbsolute_piece hn
  simp [child, join, hrelative, hp]

lemma bytes_child_of_no_slash (hp : p.bytes ≠ []) (hslash : p.bytes.getLast? ≠ some slash)
    (hn : slash ∉ n) : (p.child n).bytes = p.bytes ++ slash :: n := by
  have hrelative := isAbsolute_piece hn
  simp [child, join, hrelative, hp, hslash]

lemma Spells.child (h : Spells ns p) (hns : ∀ m ∈ ns, m ≠ [] ∧ slash ∉ m) (hn : slash ∉ n) :
    p.child n = ofLocation (ns ++ [n]) := by
  refine congrArg Path.mk (?_ : (p.child n).bytes = slash :: Text.glue slash (ns ++ [n]))
  rcases List.eq_nil_or_concat' ns with rfl | ⟨ms, m, rfl⟩
  · cases h with
    | plain => exact bytes_child_of_slash rfl hn
    | slashed hns => exact absurd rfl hns
  · obtain ⟨hm, hslash⟩ := hns m (by simp)
    have hbytes : (ofLocation (ms ++ [m])).bytes ++ slash :: n =
        slash :: Text.glue slash (ms ++ [m] ++ [n]) := by
      rw [Text.glue_append (by simp) (List.cons_ne_nil n [])]
      rfl
    cases h with
    | plain =>
      have hlast : (ofLocation (ms ++ [m])).bytes.getLast? ≠ some slash := Text.getLast_glue hm hslash
      rw [bytes_child_of_no_slash (by simp [ofLocation]) hlast hn, hbytes]
    | slashed =>
      rw [bytes_child_of_slash (by simp) hn, List.append_assoc, List.singleton_append, hbytes]

lemma Spells.child_filter (h : Spells ns p) (hns : ∀ m ∈ ns, m ≠ [] ∧ slash ∉ m) (hn : slash ∉ n) :
    Spells (ns ++ [n].filter (· ≠ [])) (p.child n) := by
  rw [h.child hns hn]
  by_cases hne : n = []
  · subst hne
    cases ns with
    | nil => exact .plain
    | cons m ns =>
      have hslash : ofLocation (m :: ns ++ [[]]) = ⟨(ofLocation (m :: ns)).bytes ++ [slash]⟩ := by
        rw [ofLocation, Text.glue_append (List.cons_ne_nil m ns) (List.cons_ne_nil [] [])]
        rfl
      rw [hslash]
      simpa using Spells.slashed (List.cons_ne_nil m ns)
  · simpa [hne] using @Spells.plain (ns ++ [n])

lemma Spells.descend {pieces : List Name} (h : Spells ns p) (hns : ∀ m ∈ ns, m ≠ [] ∧ slash ∉ m)
    (hpieces : ∀ n ∈ pieces, slash ∉ n) : Spells (ns ++ pieces.filter (· ≠ [])) (p.descend pieces) := by
  induction pieces generalizing ns p with
  | nil => simpa [Path.descend] using h
  | cons n pieces ih =>
    rw [List.forall_mem_cons] at hpieces
    have hnext : ∀ m ∈ ns ++ [n].filter (· ≠ []), m ≠ [] ∧ slash ∉ m := by
      rw [List.forall_mem_append]
      refine ⟨hns, fun m hm => ?_⟩
      obtain ⟨rfl, hne⟩ : m = n ∧ m ≠ [] := by simpa using hm
      exact ⟨hne, hpieces.1⟩
    have hrest := ih (h.child_filter hns hpieces.1) hnext hpieces.2
    rwa [List.append_assoc, ← List.filter_append, List.singleton_append] at hrest

lemma Spells.solidPieces (h : Spells ns p) (hns : ∀ m ∈ ns, m ≠ [] ∧ slash ∉ m) :
    p.solidPieces = ns := by
  have hplain : (ofLocation ns).solidPieces = ns := by
    rw [solidPieces_ofLocation fun m hm => (hns m hm).2]
    exact List.filter_eq_self.2 fun m hm => by simpa using (hns m hm).1
  cases h with
  | plain => exact hplain
  | slashed => rw [solidPieces_append_slash, hplain]

lemma child_descend_top {pieces : List Name} (hpieces : ∀ n ∈ pieces, slash ∉ n) (hn : slash ∉ n) :
    ((⟨[slash]⟩ : Path).descend pieces).child n = ofLocation (pieces.filter (· ≠ []) ++ [n]) := by
  have htop : Spells [] (⟨[slash]⟩ : Path) := .plain
  have hspells := htop.descend (List.forall_mem_nil _) hpieces
  refine hspells.child (fun m hm => ?_) hn
  rw [List.nil_append, List.mem_filter] at hm
  exact ⟨by simpa using hm.2, hpieces m hm.1⟩

lemma descend_top {ns : List Name} (hns : ∀ n ∈ ns, n ≠ [] ∧ slash ∉ n) :
    (⟨[slash]⟩ : Path).descend ns = ofLocation ns := by
  rcases List.eq_nil_or_concat' ns with rfl | ⟨above, n, rfl⟩
  · rfl
  · rw [List.forall_mem_append, List.forall_mem_singleton] at hns
    have hchild := child_descend_top (fun m hm => (hns.1 m hm).2) hns.2.2
    rw [List.filter_eq_self.2 fun m hm => by simpa using (hns.1 m hm).1] at hchild
    rw [← hchild, descend, List.foldl_append]
    rfl

lemma descend_top_sublist {pieces : List Name} (hpieces : ∀ n ∈ pieces, slash ∉ n) :
    ((⟨[slash]⟩ : Path).descend pieces).bytes.Sublist (slash :: Text.glue slash pieces) := by
  rcases List.eq_nil_or_concat' pieces with rfl | ⟨above, n, rfl⟩
  · exact List.Sublist.refl _
  · rw [List.forall_mem_append, List.forall_mem_singleton] at hpieces
    have hchild := child_descend_top hpieces.1 hpieces.2
    have hdescend : (⟨[slash]⟩ : Path).descend (above ++ [n]) =
        ((⟨[slash]⟩ : Path).descend above).child n := by simp [Path.descend]
    rw [hdescend, hchild]
    exact (Text.glue_sublist (List.filter_sublist.append (List.Sublist.refl [n]))).cons_cons slash

end Path

end SiteLint
