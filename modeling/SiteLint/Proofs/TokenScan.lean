import Mathlib.Data.List.TakeWhile
import SiteLint.Json.Reader

/-!
The tokens of a JSON text that goes on.

A scanner takes what it takes whatever follows, with one exception: a number goes on with every
digit, point or letter of an exponent behind it. So once a text is made of whole tokens, the tokens
of a continuation are these tokens and then those of what was put behind.
-/

namespace SiteLint.Json

/-- A number in front of the text would not go on in it. -/
def EndsNumber (cs : List Char) : Prop :=
  ∀ c ∈ cs.head?, isDigit c = false ∧ c ≠ '.' ∧ c ≠ 'e' ∧ c ≠ 'E'

lemma EndsNumber.nil : EndsNumber [] := by simp [EndsNumber]

/-! ### Strings -/

lemma scanString_append {cs rest : List Char} {ps : List Piece}
    (h : scanString cs = some (ps, rest)) (x : List Char) :
    scanString (cs ++ x) = some (ps, rest ++ x) := by
  fun_induction scanString cs generalizing ps rest with
  | case1 => cases h
  | case2 cs =>
    obtain ⟨rfl, rfl⟩ : [] = ps ∧ cs = rest := by simpa using h
    rfl
  | case3 a b c d cs ih =>
    simp only [Option.bind_eq_bind, Option.bind_eq_some_iff, Option.some.injEq, Prod.mk.injEq,
      Prod.exists] at h
    obtain ⟨n, hn, qs, r, hs, rfl, rfl⟩ := h
    simp [scanString, hn, ih hs]
  | case4 e cs hunit ih =>
    simp only [Option.bind_eq_bind, Option.bind_eq_some_iff, Option.some.injEq, Prod.mk.injEq,
      Prod.exists] at h
    obtain ⟨c, hc, qs, r, hs, rfl, rfl⟩ := h
    have he : e ≠ 'u' := by
      rintro rfl
      simp [unescape?] at hc
    rw [List.cons_append, List.cons_append, scanString.eq_4]
    · simp [hc, ih hs]
    · simp [he]
  | case5 => cases h
  | case6 c cs hquote hunit hescape hlow ih =>
    simp only [Option.bind_eq_bind, Option.bind_eq_some_iff, Option.some.injEq, Prod.mk.injEq,
      Prod.exists] at h
    obtain ⟨qs, r, hs, rfl, rfl⟩ := h
    have hbackslash : c ≠ '\\' := by
      rintro rfl
      cases cs with
      | nil => simp [scanString] at hs
      | cons e cs => exact hescape e cs rfl rfl
    rw [List.cons_append, scanString.eq_5]
    · simp [hlow, ih hs]
    · exact hquote
    · simp [hbackslash]
    · simp [hbackslash]

/-! ### Numbers -/

lemma isDigit_iff {c : Char} : isDigit c = true ↔ 0x30 ≤ c.toNat ∧ c.toNat ≤ 0x39 := by
  simp only [isDigit, Text.digitValue?, Option.isSome_ite, Bool.and_eq_true, decide_eq_true_eq]
  split_ifs <;> omega

lemma scanDigits_append {cs ds rest x : List Char} (h : scanDigits cs = some (ds, rest))
    (hx : ∀ c ∈ x.head?, isDigit c = false) : scanDigits (cs ++ x) = some (ds, rest ++ x) := by
  obtain ⟨hne, rfl, rfl⟩ : ¬ (cs.takeWhile isDigit).isEmpty ∧ cs.takeWhile isDigit = ds ∧
      cs.dropWhile isDigit = rest := by
    unfold scanDigits at h
    split at h
    · cases h
    · rename_i hne
      exact ⟨hne, by simpa using h⟩
  have htake : x.takeWhile isDigit = [] ∧ x.dropWhile isDigit = x := by
    cases x with
    | nil => simp
    | cons c x => simp [hx c rfl]
  have hds : (cs ++ x).takeWhile isDigit = cs.takeWhile isDigit := by
    rw [List.takeWhile_append]
    split
    · rename_i hall
      rw [htake.1, List.append_nil, (List.takeWhile_prefix _).eq_of_length hall]
    · rfl
  have hrest : (cs ++ x).dropWhile isDigit = cs.dropWhile isDigit ++ x := by
    rw [List.dropWhile_append]
    split
    · rename_i hnone
      rw [List.isEmpty_iff.1 hnone, htake.2, List.nil_append]
    · rfl
  rw [scanDigits, hds, hrest, if_neg hne]

lemma scanWhole_append {cs ds rest x : List Char} (h : scanWhole cs = some (ds, rest))
    (hx : ∀ c ∈ x.head?, isDigit c = false) : scanWhole (cs ++ x) = some (ds, rest ++ x) := by
  unfold scanWhole at h
  split at h
  · obtain ⟨rfl, rfl⟩ : ['0'] = ds ∧ _ = rest := by simpa using h
    rfl
  · rename_i hzero
    have hscan := scanDigits_append h hx
    cases cs with
    | nil => simp [scanDigits] at h
    | cons c cs =>
      rw [List.cons_append] at hscan ⊢
      rw [scanWhole.eq_2 _ (by simpa using hzero)]
      exact hscan

lemma scanFraction_append {cs rest x : List Char} {f : Option (List Char)}
    (h : scanFraction cs = some (f, rest)) (hx : EndsNumber x) :
    scanFraction (cs ++ x) = some (f, rest ++ x) := by
  unfold scanFraction at h
  split at h
  · rename_i cs
    simp only [Option.map_eq_some_iff, Prod.mk.injEq, Prod.exists] at h
    obtain ⟨ds, r, hds, rfl, rfl⟩ := h
    simp [scanFraction, scanDigits_append hds fun c hc => (hx c hc).1]
  · rename_i hpoint
    obtain ⟨rfl, rfl⟩ : none = f ∧ cs = rest := by simpa using h
    rw [scanFraction.eq_2]
    intro cs' hcs
    cases cs with
    | nil => exact (hx '.' (by simp [show x = '.' :: cs' from hcs])).2.1 rfl
    | cons c cs =>
      obtain rfl : c = '.' := by simpa using (List.cons.inj hcs).1
      exact hpoint cs rfl

lemma scanExponent_append {cs rest x : List Char} {e : Option Int}
    (h : scanExponent cs = some (e, rest)) (hx : EndsNumber x) :
    scanExponent (cs ++ x) = some (e, rest ++ x) := by
  have hdigits : ∀ c ∈ x.head?, isDigit c = false := fun c hc => (hx c hc).1
  cases cs with
  | nil =>
    obtain ⟨rfl, rfl⟩ : none = e ∧ [] = rest := by simpa [scanExponent] using h
    cases x with
    | nil => rfl
    | cons c x =>
      obtain ⟨-, -, he, hE⟩ := hx c rfl
      simp [scanExponent, he, hE]
  | cons l cs =>
    cases hl : l = 'e' || l = 'E' with
    | false =>
      obtain ⟨rfl, rfl⟩ : none = e ∧ l :: cs = rest := by simpa [scanExponent, hl] using h
      simp [scanExponent, hl]
    | true =>
      cases cs with
      | nil => simp [scanExponent, hl, scanDigits] at h
      | cons c cs =>
        -- the digits begin behind the sign, when there is one
        by_cases hminus : c = '-'
        · subst hminus
          simp only [scanExponent, hl, if_true, Option.map_eq_some_iff, Prod.mk.injEq,
            Prod.exists] at h
          obtain ⟨ds, r, hds, rfl, rfl⟩ := h
          simp [scanExponent, hl, scanDigits_append hds hdigits]
        · by_cases hplus : c = '+'
          · subst hplus
            simp only [scanExponent, hl, if_true, Option.map_eq_some_iff, Prod.mk.injEq,
              Prod.exists] at h
            obtain ⟨ds, r, hds, rfl, rfl⟩ := h
            simp [scanExponent, hl, scanDigits_append hds hdigits]
          · obtain ⟨ds, hds, rfl⟩ := by simpa [scanExponent, hl, hminus, hplus] using h
            have happend := scanDigits_append hds hdigits
            rw [List.cons_append] at happend
            simp [scanExponent, hl, hminus, hplus, happend]

lemma scanUnsigned_append {negative : Bool} {cs rest x : List Char} {n : Text.Numeral}
    (h : scanUnsigned negative cs = some (n, rest)) (hx : EndsNumber x) :
    scanUnsigned negative (cs ++ x) = some (n, rest ++ x) := by
  simp only [scanUnsigned, Option.bind_eq_bind, Option.bind_eq_some_iff, Option.some.injEq,
    Prod.mk.injEq, Prod.exists] at h
  obtain ⟨whole, r₁, hwhole, fraction, r₂, hfraction, exponent, r₃, hexponent, rfl, rfl⟩ := h
  simp [scanUnsigned, scanWhole_append hwhole fun c hc => (hx c hc).1,
    scanFraction_append hfraction hx, scanExponent_append hexponent hx]

/-! ### Tokens -/

lemma isDigit_of_scanUnsigned {negative : Bool} {c : Char} {cs rest : List Char}
    {n : Text.Numeral} (h : scanUnsigned negative (c :: cs) = some (n, rest)) :
    isDigit c = true := by
  simp only [scanUnsigned, Option.bind_eq_bind, Option.bind_eq_some_iff, Prod.exists] at h
  obtain ⟨whole, r, hwhole, -⟩ := h
  unfold scanWhole at hwhole
  split at hwhole
  · rename_i hc
    obtain ⟨rfl, -⟩ := List.cons.inj hc
    rfl
  · by_contra hdigit
    simp [scanDigits, hdigit] at hwhole

lemma scanToken_digit {c : Char} (cs : List Char) (hc : isDigit c = true) :
    scanToken (c :: cs) = (scanUnsigned false (c :: cs)).map fun (n, rest) => (.num n, rest) := by
  unfold scanToken
  split
  case h_12 => rfl
  all_goals
    rename_i heq
    obtain ⟨rfl, -⟩ := List.cons.inj heq
    exact absurd hc (by decide)

lemma scanToken_append {cs rest x : List Char} {t : Token}
    (h : scanToken cs = some (t, rest)) (hx : EndsNumber x) :
    scanToken (cs ++ x) = some (t, rest ++ x) := by
  unfold scanToken at h
  split at h
  case h_10 =>
    simp only [Option.map_eq_some_iff, Prod.mk.injEq, Prod.exists] at h
    obtain ⟨ps, r, hs, rfl, rfl⟩ := h
    simp [scanToken, scanString_append hs]
  case h_11 =>
    simp only [Option.map_eq_some_iff, Prod.mk.injEq, Prod.exists] at h
    obtain ⟨n, r, hs, rfl, rfl⟩ := h
    simp [scanToken, scanUnsigned_append hs hx]
  case h_12 =>
    simp only [Option.map_eq_some_iff, Prod.mk.injEq, Prod.exists] at h
    obtain ⟨n, r, hs, rfl, rfl⟩ := h
    cases cs with
    | nil => simp [scanUnsigned, scanWhole, scanDigits] at hs
    | cons c cs =>
      rw [List.cons_append, scanToken_digit _ (isDigit_of_scanUnsigned hs), ← List.cons_append,
        scanUnsigned_append hs hx]
      rfl
  all_goals
    obtain ⟨rfl, rfl⟩ := by simpa using h
    rfl

lemma tokens_scan {c : Char} {cs rest : List Char} {t : Token} (hspace : isSpace c = false)
    (h : scanToken (c :: cs) = some (t, rest)) :
    tokens? (c :: cs) = (tokens? rest).map (t :: ·) := by
  rw [tokens?, if_neg (by simp [hspace])]
  split
  · rename_i hnone
    rw [h] at hnone
    cases hnone
  · rename_i hsome
    rw [h] at hsome
    cases hsome
    rfl

/-- **Continued texts.** Behind whole tokens a text is read as if it stood alone, unless it goes on
with a number. -/
lemma tokens_append {cs x : List Char} {ts : List Token} (h : tokens? cs = some ts)
    (hx : EndsNumber x) : tokens? (cs ++ x) = (tokens? x).map (ts ++ ·) := by
  fun_induction tokens? cs generalizing ts with
  | case1 =>
    obtain rfl : [] = ts := by simpa using h
    simp
  | case2 c cs hspace ih =>
    rw [List.cons_append, tokens?, if_pos hspace, ih h]
  | case3 => cases h
  | case4 c cs hspace t rest hscan ih =>
    obtain ⟨ts', hts, rfl⟩ := Option.map_eq_some_iff.1 h
    have happend : scanToken (c :: (cs ++ x)) = some (t, rest ++ x) := scanToken_append hscan hx
    rw [List.cons_append, tokens_scan (by simpa using hspace) happend, ih hts]
    simp [Function.comp_def]

end SiteLint.Json
