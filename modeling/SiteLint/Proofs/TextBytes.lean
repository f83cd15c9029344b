import Mathlib.Data.List.Infix
import Mathlib.Tactic.Lemma
import Mathlib.Tactic.SplitIfs
import SiteLint.Text.Utf8

/-!
Texts and the bytes they are stored as.

Strict reading undoes storing: it gives a text just for the bytes that the text is stored as, and
refuses bytes that no text is stored as. The bytes of a text stand in those of another only between
whole characters.
-/

namespace SiteLint.Text.Utf8

lemma isTail_iff {b : UInt8} : isTail b = true ↔ 0x80 ≤ b.toNat ∧ b.toNat ≤ 0xBF := by
  simp [isTail, UInt8.le_iff_toNat_le]

lemma secondOk_iff {b c : UInt8} : secondOk b c = true ↔
    (0x80 ≤ c.toNat ∧ c.toNat ≤ 0xBF) ∧ (b.toNat = 0xE0 → 0xA0 ≤ c.toNat) ∧
      (b.toNat = 0xED → c.toNat ≤ 0x9F) ∧ (b.toNat = 0xF0 → 0x90 ≤ c.toNat) ∧
      (b.toNat = 0xF4 → c.toNat ≤ 0x8F) := by
  simp only [secondOk, Bool.and_eq_true, isTail_iff, ← UInt8.toNat_inj]
  split_ifs <;> simp_all [UInt8.le_iff_toNat_le]

variable {b c d e : UInt8} {rest rest' : List UInt8} {x : Char}

lemma step_one (hb : b.toNat < 0x80) : step b rest = (some (Char.ofNat b.toNat), rest) := by
  have h₁ : b < 0x80 := UInt8.lt_iff_toNat_lt.2 hb
  simp [step, h₁]

lemma step_two (hb : 0xC2 ≤ b.toNat ∧ b.toNat ≤ 0xDF) (hc : isTail c = true) :
    step b (c :: rest) = (some (Char.ofNat (b.toNat % 0x20 * 0x40 + payload c)), rest) := by
  have h₁ : ¬ b < 0x80 := by simp [UInt8.lt_iff_toNat_lt]; omega
  have h₂ : (0xC2 ≤ b && b ≤ 0xDF) = true := by simpa [UInt8.le_iff_toNat_le] using hb
  simp [step, h₁, h₂, hc]

lemma step_three (hb : 0xE0 ≤ b.toNat ∧ b.toNat ≤ 0xEF) (hc : secondOk b c = true)
    (hd : isTail d = true) :
    step b (c :: d :: rest) =
      (some (Char.ofNat ((b.toNat % 0x10 * 0x40 + payload c) * 0x40 + payload d)), rest) := by
  have h₁ : ¬ b < 0x80 := by simp [UInt8.lt_iff_toNat_lt]; omega
  have h₂ : (0xC2 ≤ b && b ≤ 0xDF) = false := by simp [UInt8.le_iff_toNat_le]; omega
  have h₃ : (0xE0 ≤ b && b ≤ 0xEF) = true := by simpa [UInt8.le_iff_toNat_le] using hb
  simp [step, h₁, h₂, h₃, hc, hd]

lemma step_four (hb : 0xF0 ≤ b.toNat ∧ b.toNat ≤ 0xF4) (hc : secondOk b c = true)
    (hd : isTail d = true) (he : isTail e = true) :
    step b (c :: d :: e :: rest) =
      (some (Char.ofNat
        (((b.toNat % 0x08 * 0x40 + payload c) * 0x40 + payload d) * 0x40 + payload e)), rest) := by
  have h₁ : ¬ b < 0x80 := by simp [UInt8.lt_iff_toNat_lt]; omega
  have h₂ : (0xC2 ≤ b && b ≤ 0xDF) = false := by simp [UInt8.le_iff_toNat_le]; omega
  have h₃ : (0xE0 ≤ b && b ≤ 0xEF) = false := by simp [UInt8.le_iff_toNat_le]; omega
  have h₄ : (0xF0 ≤ b && b ≤ 0xF4) = true := by simpa [UInt8.le_iff_toNat_le] using hb
  simp [step, h₁, h₂, h₃, h₄, hc, hd, he]

/-- A step that gives a character has read one of the four kinds of sequences. -/
lemma step_cases (h : step b rest = (some x, rest')) :
    (b.toNat < 0x80 ∧ rest = rest' ∧ x = Char.ofNat b.toNat) ∨
    (∃ c, 0xC2 ≤ b.toNat ∧ b.toNat ≤ 0xDF ∧ isTail c = true ∧ rest = c :: rest' ∧
      x = Char.ofNat (b.toNat % 0x20 * 0x40 + payload c)) ∨
    (∃ c d, 0xE0 ≤ b.toNat ∧ b.toNat ≤ 0xEF ∧ secondOk b c = true ∧ isTail d = true ∧
      rest = c :: d :: rest' ∧
      x = Char.ofNat ((b.toNat % 0x10 * 0x40 + payload c) * 0x40 + payload d)) ∨
    ∃ c d e, 0xF0 ≤ b.toNat ∧ b.toNat ≤ 0xF4 ∧ secondOk b c = true ∧ isTail d = true ∧
      isTail e = true ∧ rest = c :: d :: e :: rest' ∧
      x = Char.ofNat
        (((b.toNat % 0x08 * 0x40 + payload c) * 0x40 + payload d) * 0x40 + payload e) := by
  unfold step at h
  repeat' split at h
  all_goals grind [UInt8.lt_iff_toNat_lt, UInt8.le_iff_toNat_le]

lemma toNat_range (x : Char) : x.toNat < 0xD800 ∨ 0xDFFF < x.toNat ∧ x.toNat < 0x110000 := by
  have hvalid := x.valid
  simpa [UInt32.isValidChar, Nat.isValidChar] using hvalid

lemma toNat_ofNat {n : Nat} (h : n < 0xD800 ∨ 0xDFFF < n ∧ n < 0x110000) :
    (Char.ofNat n).toNat = n := by
  have hvalid : n.isValidChar := h
  rw [Char.ofNat, dif_pos hvalid]
  rfl

lemma byte_eq {n : Nat} (h : n = b.toNat) : UInt8.ofNat n = b := by
  rw [h, UInt8.ofNat_toNat]

/-- Storing a character and taking a step gives it back. -/
lemma step_encode (x : Char) (rest : List UInt8) :
    ∃ b bs, String.utf8EncodeChar x = b :: bs ∧ step b (bs ++ rest) = (some x, rest) := by
  have hx : ∀ n, n = x.toNat → Char.ofNat n = x := by
    rintro n rfl
    exact Char.ofNat_toNat x
  have hrange := toNat_range x
  simp only [String.utf8EncodeChar, Char.toNat_val]
  generalize x.toNat = v at hx hrange
  have hbyte : ∀ n, n < 256 → (UInt8.ofNat n).toNat = n := fun n => UInt8.toNat_ofNat_of_lt'
  split_ifs with h₁ h₂ h₃
  · refine ⟨_, _, rfl, ?_⟩
    have hv := hbyte v (by omega)
    rw [List.nil_append, step_one (by omega), hx _ hv]
  · refine ⟨_, _, rfl, ?_⟩
    have hb := hbyte (v / 64 % 0x20 + 0xc0) (by omega)
    have hc := hbyte (v % 0x40 + 0x80) (by omega)
    rw [List.cons_append, List.nil_append, step_two (by omega) (isTail_iff.2 (by omega)),
      hx _ (by rw [payload]; omega)]
  · refine ⟨_, _, rfl, ?_⟩
    have hb := hbyte (v / 4096 % 0x10 + 0xe0) (by omega)
    have hc := hbyte (v / 64 % 0x40 + 0x80) (by omega)
    have hd := hbyte (v % 0x40 + 0x80) (by omega)
    rw [List.cons_append, List.cons_append, List.nil_append,
      step_three (by omega) (secondOk_iff.2 (by omega)) (isTail_iff.2 (by omega)),
      hx _ (by rw [payload, payload]; omega)]
  · refine ⟨_, _, rfl, ?_⟩
    have hb := hbyte (v / 262144 % 0x08 + 0xf0) (by omega)
    have hc := hbyte (v / 4096 % 0x40 + 0x80) (by omega)
    have hd := hbyte (v / 64 % 0x40 + 0x80) (by omega)
    have he := hbyte (v % 0x40 + 0x80) (by omega)
    rw [List.cons_append, List.cons_append, List.cons_append, List.nil_append,
      step_four (by omega) (secondOk_iff.2 (by omega)) (isTail_iff.2 (by omega))
        (isTail_iff.2 (by omega)), hx _ (by rw [payload, payload, payload]; omega)]

lemma encode_of_step (h : step b rest = (some x, rest')) :
    b :: rest = String.utf8EncodeChar x ++ rest' := by
  simp only [String.utf8EncodeChar, Char.toNat_val]
  rcases step_cases h with ⟨hb, rfl, rfl⟩ | ⟨c, hb, hb', hc, rfl, rfl⟩ |
    ⟨c, d, hb, hb', hc, hd, rfl, rfl⟩ | ⟨c, d, e, hb, hb', hc, hd, he, rfl, rfl⟩
  · rw [toNat_ofNat (by omega), if_pos (by omega), byte_eq rfl]
    rfl
  · rw [isTail_iff] at hc
    rw [payload, toNat_ofNat (by omega), if_neg (by omega), if_pos (by omega),
      byte_eq (b := b) (by omega), byte_eq (b := c) (by omega)]
    rfl
  · rw [secondOk_iff] at hc
    rw [isTail_iff] at hd
    rw [payload, payload, toNat_ofNat (by omega), if_neg (by omega), if_neg (by omega),
      if_pos (by omega), byte_eq (b := b) (by omega), byte_eq (b := c) (by omega),
      byte_eq (b := d) (by omega)]
    rfl
  · rw [secondOk_iff] at hc
    rw [isTail_iff] at hd he
    rw [payload, payload, payload, toNat_ofNat (by omega), if_neg (by omega), if_neg (by omega),
      if_neg (by omega), byte_eq (b := b) (by omega), byte_eq (b := c) (by omega),
      byte_eq (b := d) (by omega), byte_eq (b := e) (by omega)]
    rfl

@[simp] lemma encode_nil : encode [] = [] := rfl

lemma encode_cons (c : Char) (cs : List Char) :
    encode (c :: cs) = String.utf8EncodeChar c ++ encode cs := rfl

@[simp] lemma encode_append (cs ds : List Char) : encode (cs ++ ds) = encode cs ++ encode ds :=
  List.flatMap_append

lemma text_encode (cs : List Char) : text? (encode cs) = some cs := by
  induction cs with
  | nil => simp [text?, decode]
  | cons x cs ih =>
    obtain ⟨b, bs, hencode, hstep⟩ := step_encode x (encode cs)
    rw [text?] at ih ⊢
    rw [encode_cons, hencode, List.cons_append, decode, hstep, List.mapM_cons, ih]
    rfl

lemma eq_encode_of_text {bs : List UInt8} {cs : List Char} (h : text? bs = some cs) :
    bs = encode cs := by
  rw [text?] at h
  fun_induction decode bs generalizing cs with
  | case1 =>
    obtain rfl : cs = [] := by simpa using h.symm
    rfl
  | case2 b rest ih =>
    obtain ⟨x, hx, xs, hxs, rfl⟩ : ∃ x, (step b rest).1 = some x ∧
        ∃ xs, (decode (step b rest).2).mapM id = some xs ∧ x :: xs = cs := by
      simpa [List.mapM_cons, Option.bind_eq_some_iff] using h
    have hstep : step b rest = (some x, (step b rest).2) := Prod.ext hx rfl
    rw [encode_of_step hstep, encode_cons, ← ih hxs]

lemma encode_injective : Function.Injective encode := fun cs ds h => by
  have hread := text_encode cs
  rw [h, text_encode] at hread
  exact (Option.some.inj hread).symm

/-- The bytes that a text is stored as. -/
def stored (text : String) : List UInt8 := text.toUTF8.data.toList

lemma stored_eq (text : String) : stored text = encode text.toList := by
  rw [stored, String.toUTF8, ← String.utf8Encode_toList, List.utf8Encode,
    List.toList_data_toByteArray, encode]

/-- **Stored texts.** The bytes that are read as a text are those that it is stored as. -/
lemma text_eq_some_iff {bs : List UInt8} {text : String} :
    text? bs = some text.toList ↔ bs = stored text := by
  rw [stored_eq]
  exact ⟨eq_encode_of_text, fun h => h ▸ text_encode _⟩

/-! ### Where a text can stand in another -/

lemma exists_first_byte (c : Char) : ∃ b bs, String.utf8EncodeChar c = b :: bs ∧
    b.IsUTF8FirstByte ∧ ∀ t ∈ bs, ¬ t.IsUTF8FirstByte := by
  have hfirst : ∀ i (hi : i < (String.utf8EncodeChar c).length),
      (String.utf8EncodeChar c)[i].IsUTF8FirstByte ↔ i = 0 :=
    fun i hi => UInt8.isUTF8FirstByte_getElem_utf8EncodeChar
  obtain ⟨b, bs, hc, -⟩ := step_encode c []
  simp only [hc] at hfirst
  refine ⟨b, bs, hc, (hfirst 0 (by simp)).2 rfl, fun t ht hstart => ?_⟩
  obtain ⟨i, hi, rfl⟩ := List.getElem_of_mem ht
  exact absurd ((hfirst (i + 1) (by simpa using hi)).1 hstart) (Nat.succ_ne_zero i)

lemma encode_append_inj {x y : Char} {rest rest' : List UInt8}
    (h : String.utf8EncodeChar x ++ rest = String.utf8EncodeChar y ++ rest') :
    x = y ∧ rest = rest' := by
  obtain ⟨b, bs, hx, hstep⟩ := step_encode x rest
  obtain ⟨d, ds, hy, hstep'⟩ := step_encode y rest'
  rw [hx, hy, List.cons_append, List.cons_append] at h
  obtain ⟨rfl, hbytes⟩ := List.cons.inj h
  rw [hbytes, hstep', Prod.mk.injEq, Option.some.injEq] at hstep
  exact ⟨hstep.1.symm, hstep.2.symm⟩

lemma prefix_of_encode {ms cs : List Char}
    (h : encode ms <+: encode cs) : ms <+: cs := by
  induction ms generalizing cs with
  | nil => exact List.nil_prefix
  | cons x ms ih =>
    obtain ⟨rest, hrest⟩ := h
    rw [encode_cons, List.append_assoc] at hrest
    cases cs with
    | nil =>
      obtain ⟨b, bs, hx, -⟩ := exists_first_byte x
      simp [hx] at hrest
    | cons y cs =>
      obtain ⟨rfl, hlater⟩ := encode_append_inj hrest
      exact List.cons_prefix_cons.2 ⟨rfl, ih ⟨rest, hlater⟩⟩

lemma encode_prefix_of_place {c : Char} {ms : List Char} {p rest : List UInt8} (hms : ms ≠ [])
    (hp : p ≠ [])
    (h : p ++ encode ms <+: String.utf8EncodeChar c ++ rest) :
    String.utf8EncodeChar c <+: p := by
  rcases List.prefix_or_prefix_of_prefix (List.prefix_append (String.utf8EncodeChar c) rest)
    ((List.prefix_append p _).trans h) with hwhole | ⟨inner, hinner⟩
  · exact hwhole
  · cases inner with
    | nil => exact ⟨[], by rw [← hinner, List.append_nil, List.append_nil]⟩
    | cons t inner =>
      obtain ⟨x, ms, rfl⟩ := List.exists_cons_of_ne_nil hms
      obtain ⟨b, bs, hx, hb, -⟩ := exists_first_byte x
      obtain ⟨e, es, hc, -, hes⟩ := exists_first_byte c
      rw [← hinner, List.append_assoc, List.prefix_append_right_inj, encode_cons, hx,
        List.cons_append, List.cons_append, List.cons_prefix_cons] at h
      obtain ⟨d, p, rfl⟩ := List.exists_cons_of_ne_nil hp
      rw [hc, List.cons_append] at hinner
      obtain ⟨-, hinner⟩ := List.cons.inj hinner
      exact absurd (h.1 ▸ hb) (hes t (by simp [← hinner]))

lemma exists_place {p : List UInt8} {ms cs : List Char} (hms : ms ≠ [])
    (h : p ++ encode ms <+: encode cs) :
    ∃ q, encode q = p ∧ q ++ ms <+: cs := by
  induction cs generalizing p with
  | nil =>
    obtain ⟨x, ms, rfl⟩ := List.exists_cons_of_ne_nil hms
    obtain ⟨b, bs, hx, -⟩ := exists_first_byte x
    simp [encode_cons, hx] at h
  | cons c cs ih =>
    by_cases hp : p = []
    · subst hp
      exact ⟨[], rfl, prefix_of_encode h⟩
    · obtain ⟨p, rfl⟩ := encode_prefix_of_place hms hp h
      rw [encode_cons, List.append_assoc, List.prefix_append_right_inj] at h
      obtain ⟨q, rfl, hplace⟩ := ih h
      exact ⟨c :: q, encode_cons c q, List.cons_prefix_cons.2 ⟨rfl, hplace⟩⟩

lemma infix_stored_iff {marker text : String} :
    stored marker <:+: stored text ↔ marker.toList <:+: text.toList := by
  rw [stored_eq, stored_eq]
  refine ⟨fun h => ?_, fun h => List.IsInfix.flatMap h _⟩
  obtain ⟨p, after, hsplit⟩ := h
  by_cases hmarker : marker.toList = []
  · rw [hmarker]
    exact List.nil_infix
  · obtain ⟨q, -, hplace⟩ := exists_place hmarker ⟨after, hsplit⟩
    exact (List.suffix_append q _).isInfix.trans hplace.isInfix

/-! ### ASCII bytes -/

lemma toNat_ascii {c : Char} (hc : c.toNat < 0x80) : (UInt8.ofNat c.toNat).toNat = c.toNat :=
  UInt8.toNat_ofNat_of_lt' (lt_trans hc (by decide))

lemma encode_ascii {c : Char} (hc : c.toNat < 0x80) :
    String.utf8EncodeChar c = [UInt8.ofNat c.toNat] := by
  rw [String.utf8EncodeChar]
  simp only [Char.toNat_val]
  rw [if_pos (by omega)]

lemma encode_of_ascii_mem {x : Char} {b : UInt8} (hb : b.toNat < 0x80)
    (h : b ∈ String.utf8EncodeChar x) : String.utf8EncodeChar x = [b] := by
  have hrange := toNat_range x
  simp only [String.utf8EncodeChar, Char.toNat_val] at h ⊢
  generalize x.toNat = v at h hrange ⊢
  have hbyte : ∀ n, n < 256 → b = UInt8.ofNat n → n < 0x80 := by
    rintro n hn rfl
    rwa [UInt8.toNat_ofNat_of_lt' hn] at hb
  split_ifs at h ⊢ with h₁ h₂ h₃
  · rw [List.mem_singleton.1 h]
  · simp only [List.mem_cons, List.not_mem_nil, or_false] at h
    rcases h with h | h <;> have hlow := hbyte _ (by omega) h <;> omega
  · simp only [List.mem_cons, List.not_mem_nil, or_false] at h
    rcases h with h | h | h <;> have hlow := hbyte _ (by omega) h <;> omega
  · simp only [List.mem_cons, List.not_mem_nil, or_false] at h
    rcases h with h | h | h | h <;> have hlow := hbyte _ (by omega) h <;> omega

/-! ### Bytes that are no text -/

lemma lenientText_encode (cs : List Char) : lenientText (encode cs) = cs := by
  induction cs with
  | nil => simp [lenientText, decode]
  | cons x cs ih =>
    obtain ⟨b, bs, hencode, hstep⟩ := step_encode x (encode cs)
    rw [lenientText] at ih ⊢
    rw [encode_cons, hencode, List.cons_append, decode, hstep, List.map_cons, ih]
    rfl

lemma step_suffix (b : UInt8) (rest : List UInt8) : (step b rest).2 <:+ rest := by
  unfold step
  repeat' split
  all_goals simp [List.suffix_cons_iff]

lemma step_append_ascii {a : UInt8} (ha : a.toNat < 0x80) (b : UInt8) (rest more : List UInt8) :
    step b (rest ++ a :: more) = ((step b rest).1, (step b rest).2 ++ a :: more) := by
  have htail : isTail a = false := by
    rw [← Bool.not_eq_true, isTail_iff]
    omega
  have hsecond (lead : UInt8) : secondOk lead a = false := by rw [secondOk, htail, Bool.false_and]
  rcases rest with _ | ⟨c, _ | ⟨d, _ | ⟨e, rest⟩⟩⟩ <;> simp only [step, List.nil_append,
    List.cons_append, htail, hsecond] <;> split_ifs <;> simp_all

lemma decode_append_ascii {a : UInt8} (ha : a.toNat < 0x80) (xs more : List UInt8) :
    decode (xs ++ a :: more) = decode xs ++ some (Char.ofNat a.toNat) :: decode more := by
  fun_induction decode xs with
  | case1 => rw [List.nil_append, decode, step_one ha, List.nil_append]
  | case2 b rest ih =>
    rw [List.cons_append, decode, step_append_ascii ha, ih, List.cons_append]

lemma lenientText_append_ascii {a : UInt8} (ha : a.toNat < 0x80) (xs more : List UInt8) :
    lenientText (xs ++ a :: more) = lenientText xs ++ Char.ofNat a.toNat :: lenientText more := by
  rw [lenientText, decode_append_ascii ha, List.map_append, List.map_cons]
  rfl

end SiteLint.Text.Utf8
