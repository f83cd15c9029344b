import SiteLint.Proofs.PathNames

/-!
The text of a path.

A path that a text writes has that text again, and a path that no text writes has the text of
another path: what is ill-formed in its bytes is shown as U+FFFD. A slash is stored as one byte and
stands in no other character, so a text and its bytes have their pieces in the same places.
-/

namespace SiteLint

namespace Text

variable {α : Type} [DecidableEq α]

lemma splitAt_append_of_notMem {sep : α} {xs ys p : List α} {ps : List (List α)} (h : sep ∉ xs)
    (hsplit : splitAt sep ys = p :: ps) : splitAt sep (xs ++ ys) = (xs ++ p) :: ps := by
  induction xs with
  | nil => exact hsplit
  | cons x xs ih =>
    rw [List.mem_cons, not_or] at h
    rw [List.cons_append, splitAt, if_neg (Ne.symm h.1), ih h.2, List.cons_append]

end Text

namespace Text.Utf8

variable {c : Char} {cs : List Char} {bs : List UInt8}

lemma ascii_mem_encode (hc : c.toNat < 0x80) : UInt8.ofNat c.toNat ∈ encode cs ↔ c ∈ cs := by
  rw [encode, List.mem_flatMap]
  constructor
  · rintro ⟨x, hx, hmem⟩
    have hsame : String.utf8EncodeChar x = String.utf8EncodeChar c := by
      rw [encode_of_ascii_mem ((toNat_ascii hc).trans_lt hc) hmem, encode_ascii hc]
    obtain ⟨rfl, -⟩ := encode_append_inj (congrArg (· ++ []) hsame)
    exact hx
  · exact fun h => ⟨c, h, by simp [encode_ascii hc]⟩

lemma ascii_mem_lenientText (hc : c.toNat < 0x80) :
    c ∈ lenientText bs ↔ UInt8.ofNat c.toNat ∈ bs := by
  constructor
  · intro h
    rw [lenientText] at h
    fun_induction decode bs with
    | case1 => cases h
    | case2 b rest ih =>
      rcases List.mem_cons.1 h with h | h
      · cases hx : (step b rest).1 with
        | none =>
          rw [hx] at h
          obtain rfl : c = '\uFFFD' := h
          exact absurd hc (by decide)
        | some x =>
          rw [hx] at h
          obtain rfl : c = x := h
          have hbytes := encode_of_step (Prod.ext hx rfl)
          rw [hbytes, encode_ascii hc]
          exact List.mem_cons_self
      · exact List.mem_cons_of_mem _ ((step_suffix b rest).subset (ih h))
  · intro h
    obtain ⟨xs, more, rfl⟩ := List.append_of_mem h
    rw [lenientText_append_ascii ((toNat_ascii hc).trans_lt hc), toNat_ascii hc, Char.ofNat_toNat]
    simp

lemma slash_mem_lenientText : '/' ∈ lenientText bs ↔ slash ∈ bs :=
  ascii_mem_lenientText (c := '/') (by decide)

lemma slash_mem_encode : slash ∈ encode cs ↔ '/' ∈ cs := ascii_mem_encode (c := '/') (by decide)

lemma encode_eq_nil : encode cs = [] ↔ cs = [] := by
  rw [← encode_nil, encode_injective.eq_iff]

lemma encode_replicate_slash (k : Nat) :
    encode (List.replicate k '/') = List.replicate k slash := by
  induction k with
  | zero => rfl
  | succ k ih =>
    rw [List.replicate_succ, encode_cons, ih]
    rfl

lemma slash_notMem_of_ne {c : Char} (hc : c ≠ '/') : slash ∉ String.utf8EncodeChar c := by
  have hmem := mt (@slash_mem_encode [c]).1 (by simpa using Ne.symm hc)
  simpa [encode] using hmem

lemma encode_trim (cs : List Char) :
    encode (cs.reverse.dropWhile (· = '/')).reverse =
      ((encode cs).reverse.dropWhile (· = slash)).reverse := by
  induction cs using List.reverseRecOn with
  | nil => rfl
  | append_singleton cs c ih =>
    have hlast : encode (cs ++ [c]) = encode cs ++ String.utf8EncodeChar c := by
      rw [encode_append, encode_cons, encode_nil, List.append_nil]
    rw [hlast]
    by_cases hc : c = '/'
    · have hslash : String.utf8EncodeChar c = [slash] := by
        rw [hc]
        rfl
      rw [hslash, List.reverse_concat, List.reverse_concat, List.dropWhile_cons_of_pos (by simp [hc]),
        List.dropWhile_cons_of_pos (by simp), ih]
    · obtain ⟨front, b, hb⟩ := (List.eq_nil_or_concat' (String.utf8EncodeChar c)).resolve_left
        String.utf8EncodeChar_ne_nil
      have hne : b ≠ slash := by
        rintro rfl
        exact slash_notMem_of_ne hc (by simp [hb])
      rw [List.reverse_concat, List.dropWhile_cons_of_neg (by simpa using hc), hb, ← List.append_assoc,
        List.reverse_concat, List.dropWhile_cons_of_neg (by simpa using hne), ← List.reverse_concat,
        ← List.reverse_concat, List.reverse_reverse, List.reverse_reverse, hlast, hb,
        List.append_assoc]

/-- The pieces of what a text is stored as are its pieces, stored. -/
lemma splitAt_encode (cs : List Char) : splitAt slash (encode cs) = (splitAt '/' cs).map encode := by
  induction cs with
  | nil => rfl
  | cons c cs ih =>
    obtain ⟨p, ps, hsplit⟩ := List.exists_cons_of_ne_nil (splitAt_ne_nil '/' cs)
    rw [encode_cons, splitAt]
    by_cases hc : c = '/'
    · rw [if_pos hc, List.map_cons, ← ih, hc]
      rfl
    · rw [if_neg hc, hsplit]
      rw [hsplit, List.map_cons] at ih
      rw [splitAt_append_of_notMem (slash_notMem_of_ne hc) ih]
      rfl

/-- The pieces of the text of some bytes are the texts of their pieces. -/
lemma splitAt_lenientText (bs : List UInt8) :
    splitAt '/' (lenientText bs) = (splitAt slash bs).map lenientText := by
  by_cases h : slash ∈ bs
  · obtain ⟨xs, more, hbs⟩ := List.append_of_mem h
    have hslash : Char.ofNat slash.toNat = '/' := by decide
    rw [hbs, lenientText_append_ascii (by decide), hslash, splitAt_append_sep, splitAt_append_sep,
      splitAt_lenientText xs, splitAt_lenientText more, List.map_append]
  · rw [splitAt_of_notMem h, splitAt_of_notMem (mt slash_mem_lenientText.1 h)]
    rfl
  termination_by bs.length
  decreasing_by
    all_goals
      simp only [hbs, List.length_append, List.length_cons]
      omega

lemma head_encode_ascii (hc : c.toNat < 0x80) :
    (encode cs).head? = some (UInt8.ofNat c.toNat) ↔ cs.head? = some c := by
  cases cs with
  | nil => simp
  | cons x cs =>
    obtain ⟨b, bs, hx, -⟩ := exists_first_byte x
    rw [encode_cons, hx, List.cons_append, List.head?_cons, List.head?_cons, Option.some.injEq,
      Option.some.injEq]
    constructor
    · rintro rfl
      have hmem : UInt8.ofNat c.toNat ∈ encode [x] := by simp [encode, hx]
      exact (List.mem_singleton.1 ((ascii_mem_encode hc).1 hmem)).symm
    · rintro rfl
      rw [encode_ascii hc] at hx
      exact (List.cons.inj hx).1.symm

lemma head_lenientText_ascii (hc : c.toNat < 0x80) :
    (lenientText bs).head? = some c ↔ bs.head? = some (UInt8.ofNat c.toNat) := by
  cases bs with
  | nil => simp [lenientText, decode]
  | cons b rest =>
    rw [lenientText, decode, List.map_cons, List.head?_cons, List.head?_cons, Option.some.injEq,
      Option.some.injEq]
    constructor
    · intro h
      cases hx : (step b rest).1 with
      | none =>
        rw [hx] at h
        obtain rfl : '\uFFFD' = c := h
        exact absurd hc (by decide)
      | some x =>
        rw [hx] at h
        obtain rfl : x = c := h
        have hbytes := encode_of_step (Prod.ext hx rfl)
        rw [encode_ascii hc] at hbytes
        exact (List.cons.inj hbytes).1
    · rintro rfl
      rw [step_one ((toNat_ascii hc).trans_lt hc), toNat_ascii hc, Char.ofNat_toNat]
      rfl

lemma lenientText_eq_ascii (hcs : ∀ c ∈ cs, c.toNat < 0x80) :
    lenientText bs = cs ↔ bs = encode cs := by
  constructor
  · intro h
    induction cs generalizing bs with
    | nil =>
      cases bs with
      | nil => rfl
      | cons b rest =>
        rw [lenientText, decode] at h
        cases h
    | cons c cs ih =>
      obtain ⟨hc, hcs⟩ := List.forall_mem_cons.1 hcs
      obtain ⟨rest, rfl⟩ : ∃ rest, bs = UInt8.ofNat c.toNat :: rest :=
        List.head?_eq_some_iff.1 ((head_lenientText_ascii hc).1 (by rw [h, List.head?_cons]))
      have hrest := lenientText_append_ascii ((toNat_ascii hc).trans_lt hc) [] rest
      have hnil : lenientText [] = [] := lenientText_encode []
      rw [List.nil_append, h, hnil, toNat_ascii hc, Char.ofNat_toNat] at hrest
      rw [encode_cons, encode_ascii hc, ← ih hcs (List.cons.inj hrest).2.symm]
      rfl
  · rintro rfl
    exact lenientText_encode cs

end Text.Utf8

/-- The name is stored for a text. -/
def Name.IsText (n : Name) : Prop := ∃ cs : List Char, n = Text.Utf8.encode cs

@[simp] lemma Name.isText_encode (cs : List Char) : Name.IsText (Text.Utf8.encode cs) := ⟨cs, rfl⟩

lemma Name.isSome_text_iff {n : Name} : (Text.Utf8.text? n).isSome = true ↔ n.IsText := by
  rw [Option.isSome_iff_exists]
  refine exists_congr fun cs => ⟨Text.Utf8.eq_encode_of_text, ?_⟩
  rintro rfl
  exact Text.Utf8.text_encode cs

instance (n : Name) : Decidable n.IsText := decidable_of_iff _ Name.isSome_text_iff

/-- The name that the text of a name is stored as. -/
def Name.reread (n : Name) : Name := Text.Utf8.encode (Text.Utf8.lenientText n)

lemma Name.reread_eq_iff {n : Name} : n.reread = n ↔ n.IsText := by
  constructor
  · exact fun h => ⟨_, h.symm⟩
  · rintro ⟨cs, rfl⟩
    rw [Name.reread, Text.Utf8.lenientText_encode]

lemma Name.reread_eq_ascii {n : Name} (cs : List Char) (hcs : ∀ c ∈ cs, c.toNat < 0x80) :
    n.reread = Text.Utf8.encode cs ↔ n = Text.Utf8.encode cs := by
  rw [Name.reread, Text.Utf8.encode_injective.eq_iff, Text.Utf8.lenientText_eq_ascii hcs]

lemma Name.encode_lenientText {ns : List Name} (h : ∀ n ∈ ns, n.IsText) :
    (ns.map Text.Utf8.lenientText).map Text.Utf8.encode = ns := by
  rw [List.map_map]
  refine (List.map_congr_left fun n hn => ?_).trans (List.map_id' _)
  obtain ⟨cs, rfl⟩ := h n hn
  rw [Function.comp_apply, Text.Utf8.lenientText_encode]

namespace Path

/-- The path is written by a text. -/
def IsText (p : Path) : Prop := ∃ text, p = ofString text

lemma toString_ofString (text : String) : (ofString text).toString = text := by
  rw [toString, ofString, Text.Utf8.lenientText_encode, String.ofList_toList]

/-- The path that the text of a path writes. -/
def reread (p : Path) : Path := ofString p.toString

/-- A path can be read back from its text just when a text writes it. -/
lemma reread_eq_iff {p : Path} : p.reread = p ↔ p.IsText := by
  constructor
  · exact fun h => ⟨p.toString, h.symm⟩
  · rintro ⟨text, rfl⟩
    rw [reread, toString_ofString]

lemma pieces_reread (p : Path) : p.reread.pieces = p.pieces.map Name.reread := by
  rw [pieces, reread, ofString, toString, String.toList_ofList, Text.Utf8.splitAt_encode,
    Text.Utf8.splitAt_lenientText, List.map_map, pieces]
  rfl

lemma IsText.toString_inj {p q : Path} (hp : p.IsText) (hq : q.IsText)
    (h : p.toString = q.toString) : p = q := by
  rw [← reread_eq_iff.2 hp, reread, h, ← reread, reread_eq_iff.2 hq]

instance (p : Path) : Decidable p.IsText := decidable_of_iff _ reread_eq_iff

lemma isText_iff {p : Path} : p.IsText ↔ Name.IsText p.bytes := by
  constructor
  · rintro ⟨text, rfl⟩
    exact ⟨text.toList, rfl⟩
  · rintro ⟨cs, hcs⟩
    refine ⟨String.ofList cs, congrArg mk ?_⟩
    rw [hcs, String.toList_ofList]

lemma IsText.join {p q : Path} (hp : p.IsText) (hq : q.IsText) : (p.join q).IsText := by
  obtain ⟨cs, hcs⟩ := isText_iff.1 hp
  obtain ⟨ds, hds⟩ := isText_iff.1 hq
  rw [Path.join]
  split_ifs
  · exact hq
  · refine isText_iff.2 ⟨cs ++ ds, ?_⟩
    rw [hcs, hds, Text.Utf8.encode_append]
  · refine isText_iff.2 ⟨cs ++ '/' :: ds, ?_⟩
    rw [hcs, hds, Text.Utf8.encode_append, Text.Utf8.encode_cons]
    rfl

lemma isText_ofComponents {cs : List Component} (h : ∀ c ∈ cs, Name.IsText c.bytes) :
    (ofComponents cs).IsText := by
  have hfold : ∀ (p : Path), p.IsText → (cs.foldl (fun p c => p.join ⟨c.bytes⟩) p).IsText := by
    induction cs with
    | nil => exact fun p hp => hp
    | cons c cs ih =>
      rw [List.forall_mem_cons] at h
      exact fun p hp => ih h.2 _ (hp.join (isText_iff.2 h.1))
  exact hfold ⟨[]⟩ ⟨"", rfl⟩

lemma isAbsolute_ofString {text : String} :
    (ofString text).isAbsolute = true ↔ text.toList.head? = some '/' := by
  rw [isAbsolute, decide_eq_true_iff]
  exact Text.Utf8.head_encode_ascii (c := '/') (by decide)

lemma head_toString {p : Path} : p.toString.toList.head? = some '/' ↔ p.isAbsolute = true := by
  rw [isAbsolute, decide_eq_true_iff, toString, String.toList_ofList]
  exact Text.Utf8.head_lenientText_ascii (c := '/') (by decide)

lemma isAbsolute_reread (p : Path) : p.reread.isAbsolute = p.isAbsolute :=
  Bool.eq_iff_iff.2 (isAbsolute_ofString.trans head_toString)

end Path

end SiteLint
