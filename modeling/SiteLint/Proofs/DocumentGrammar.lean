import SiteLint.Proofs.TextBytes
import SiteLint.Proofs.TokenScan

/-!
The texts that write a JSON value, and that they are read.

A value can be written in many ways: with any space around its parts, and with any character of a
string escaped. The grammar has a case for each way; of numbers it has the natural ones only. Its
texts are read back inside any text they stand in: their tokens lead from where a value is expected
to where it is complete, whatever is open around it.
-/

namespace SiteLint.Json

/-! ### The grammar -/

/-- What may stand around the parts of a value. -/
def Gap (cs : List Char) : Prop := ∀ c ∈ cs, isSpace c = true

/-- Four digits that give a number to the base sixteen. -/
inductive FourDigits : List Char → Nat → Prop
  | digits {a b c d : Char} {n : Nat} (h : Text.readDigits 16 [a, b, c, d] = some n) :
    FourDigits [a, b, c, d] n

/-- The ways to write a text between quotes: each character stands for itself, or is escaped with
its letter, its number, or the numbers of the surrogates that it is made of. -/
inductive Escapes : List Char → List Char → Prop
  | nil : Escapes [] []
  | plain {c : Char} {cs body : List Char} (hquote : c ≠ '"') (hbackslash : c ≠ '\\')
    (hcontrol : 0x20 ≤ c.toNat) (h : Escapes cs body) : Escapes (c :: cs) (c :: body)
  | letter {c l : Char} {cs body : List Char} (hc : unescape? l = some c) (h : Escapes cs body) :
    Escapes (c :: cs) ('\\' :: l :: body)
  | number {c : Char} {cs ds body : List Char} (hds : FourDigits ds c.toNat) (h : Escapes cs body) :
    Escapes (c :: cs) ('\\' :: 'u' :: (ds ++ body))
  | pair {c : Char} {high low : Nat} {cs ds es body : List Char} (hds : FourDigits ds high)
    (hes : FourDigits es low) (hhigh : isHigh high = true) (hlow : isLow low = true)
    (hc : c.toNat = (high - 0xD800) * 0x400 + (low - 0xDC00) + 0x10000) (h : Escapes cs body) :
    Escapes (c :: cs) ('\\' :: 'u' :: (ds ++ '\\' :: 'u' :: (es ++ body)))

/-- The ways to write a string. -/
inductive Quoted (s : String) : List Char → Prop
  | quotes {body : List Char} (h : Escapes s.toList body) : Quoted s ('"' :: (body ++ ['"']))

/-- What a part of a text can write. -/
inductive Part
  | value (v : Json)
  /-- A value and the space around it. -/
  | element (v : Json)
  | items (vs : List Json)
  | members (ms : List (String × Json))

/-- The ways to write a part. -/
inductive Written : Part → List Char → Prop
  | null : Written (.value .null) "null".toList
  | false : Written (.value (.bool .false)) "false".toList
  | true : Written (.value (.bool .true)) "true".toList
  | nat (n : Nat) : Written (.value (.nat n)) (Nat.toDigits 10 n)
  | text {s : String} {cs : List Char} (h : Quoted s cs) : Written (.value (.text s)) cs
  | arr {vs : List Json} {cs : List Char} (h : Written (.items vs) cs) :
    Written (.value (.arr vs)) ('[' :: (cs ++ [']']))
  | record {ms : List (String × Json)} {cs : List Char} (h : Written (.members ms) cs) :
    Written (.value (.record ms)) ('\x7b' :: (cs ++ ['\x7d']))
  | element {v : Json} {before cs after : List Char} (hbefore : Gap before)
    (h : Written (.value v) cs) (hafter : Gap after) :
    Written (.element v) (before ++ (cs ++ after))
  | noItem {gap : List Char} (h : Gap gap) : Written (.items []) gap
  | item {v : Json} {cs : List Char} (h : Written (.element v) cs) : Written (.items [v]) cs
  | items {v w : Json} {vs : List Json} {cs later : List Char} (h : Written (.element v) cs)
    (hlater : Written (.items (w :: vs)) later) :
    Written (.items (v :: w :: vs)) (cs ++ ',' :: later)
  | noMember {gap : List Char} (h : Gap gap) : Written (.members []) gap
  | member {k : String} {v : Json} {before name between cs : List Char} (hbefore : Gap before)
    (hname : Quoted k name) (hbetween : Gap between) (h : Written (.element v) cs) :
    Written (.members [(k, v)]) (before ++ (name ++ (between ++ ':' :: cs)))
  | members {m n : String × Json} {ms : List (String × Json)} {cs later : List Char}
    (h : Written (.members [m]) cs) (hlater : Written (.members (n :: ms)) later) :
    Written (.members (m :: n :: ms)) (cs ++ ',' :: later)

/-! ### Strings -/

lemma assemble_unit {n : Nat} (h : n < 0xD800 ∨ 0xDFFF < n) (ps : List Piece) :
    assemble (.unit n :: ps) = (assemble ps).map (Char.ofNat n :: ·) := by
  have hhigh : isHigh n = false := by
    simp only [isHigh, Bool.and_eq_false_iff, decide_eq_false_iff_not]
    omega
  have hlow : isLow n = false := by
    simp only [isLow, Bool.and_eq_false_iff, decide_eq_false_iff_not]
    omega
  cases ps with
  | nil => simp [assemble, hhigh, hlow]
  | cons p ps => cases p <;> simp [assemble, hhigh, hlow]

lemma assemble_pair {high low : Nat} (hhigh : isHigh high = true) (hlow : isLow low = true)
    (ps : List Piece) :
    assemble (.unit high :: .unit low :: ps) = (assemble ps).map
      (Char.ofNat ((high - 0xD800) * 0x400 + (low - 0xDC00) + 0x10000) :: ·) := by
  simp [assemble, hhigh, hlow]

lemma scanString_unit {ds : List Char} {n : Nat} (h : FourDigits ds n) (cs : List Char) :
    scanString ('\\' :: 'u' :: (ds ++ cs)) =
      (scanString cs).map fun (ps, rest) => (.unit n :: ps, rest) := by
  obtain ⟨hn⟩ := h
  simp only [List.cons_append, List.nil_append, scanString, hn]
  cases scanString cs <;> rfl

lemma scanString_letter {c l : Char} (h : unescape? l = some c) (cs : List Char) :
    scanString ('\\' :: l :: cs) =
      (scanString cs).map fun (ps, rest) => (.char c :: ps, rest) := by
  have hu : l ≠ 'u' := by
    rintro rfl
    simp [unescape?] at h
  rw [scanString.eq_4]
  · simp only [h]
    cases scanString cs <;> rfl
  · simp [hu]

lemma scanString_plain {c : Char} (hquote : c ≠ '"') (hbackslash : c ≠ '\\')
    (hcontrol : 0x20 ≤ c.toNat) (cs : List Char) :
    scanString (c :: cs) = (scanString cs).map fun (ps, rest) => (.char c :: ps, rest) := by
  rw [scanString.eq_5]
  · rw [if_neg (by omega)]
    cases scanString cs <;> rfl
  · exact hquote
  · simp [hbackslash]
  · simp [hbackslash]

lemma Escapes.scanString {cs body : List Char} (h : Escapes cs body) :
    ∃ ps, assemble ps = some cs ∧
      ∀ rest, scanString (body ++ '"' :: rest) = some (ps, rest) := by
  induction h with
  | nil => exact ⟨[], rfl, fun rest => rfl⟩
  | @plain c cs body hquote hbackslash hcontrol _ ih =>
    obtain ⟨ps, hps, hscan⟩ := ih
    refine ⟨.char c :: ps, by simp [assemble, hps], fun rest => ?_⟩
    rw [List.cons_append, scanString_plain hquote hbackslash hcontrol, hscan]
    rfl
  | @letter c l cs body hc _ ih =>
    obtain ⟨ps, hps, hscan⟩ := ih
    refine ⟨.char c :: ps, by simp [assemble, hps], fun rest => ?_⟩
    rw [List.cons_append, List.cons_append, scanString_letter hc, hscan]
    rfl
  | @number c cs ds body hds _ ih =>
    obtain ⟨ps, hps, hscan⟩ := ih
    have hrange : c.toNat < 0xD800 ∨ 0xDFFF < c.toNat :=
      (Text.Utf8.toNat_range c).imp_right And.left
    refine ⟨.unit c.toNat :: ps, ?_, fun rest => ?_⟩
    · rw [assemble_unit hrange, hps, Char.ofNat_toNat]
      rfl
    · rw [List.cons_append, List.cons_append, List.append_assoc, scanString_unit hds, hscan]
      rfl
  | @pair c high low cs ds es body hds hes hhigh hlow hc _ ih =>
    obtain ⟨ps, hps, hscan⟩ := ih
    refine ⟨.unit high :: .unit low :: ps, ?_, fun rest => ?_⟩
    · rw [assemble_pair hhigh hlow, hps, ← hc, Char.ofNat_toNat]
      rfl
    · have hrest : '\\' :: 'u' :: (ds ++ '\\' :: 'u' :: (es ++ body)) ++ '"' :: rest =
          '\\' :: 'u' :: (ds ++ '\\' :: 'u' :: (es ++ (body ++ '"' :: rest))) := by simp
      rw [hrest, scanString_unit hds, scanString_unit hes, hscan]
      rfl

/-! ### Tokens -/

lemma tokens_nil : tokens? [] = some [] := by rw [tokens?]

lemma tokens_single {c : Char} {cs : List Char} {t : Token} (hspace : isSpace c = false)
    (h : scanToken (c :: cs) = some (t, [])) : tokens? (c :: cs) = some [t] := by
  rw [tokens_scan hspace h, tokens_nil]
  rfl

lemma tokens_quoted {s : String} {cs : List Char} (h : Quoted s cs) :
    tokens? cs = some [.str (some s)] := by
  obtain ⟨hbody⟩ := h
  obtain ⟨ps, hps, hscan⟩ := hbody.scanString
  refine tokens_single (by decide) ?_
  simp [scanToken, hscan, hps]

/-- The characters that are tokens by themselves. -/
def mark? : Char → Option Token
  | '[' => some .openArray
  | ']' => some .closeArray
  | '\x7b' => some .openObject
  | '\x7d' => some .closeObject
  | ',' => some .comma
  | ':' => some .colon
  | _ => none

lemma tokens_mark {c : Char} {t : Token} (cs : List Char) (h : mark? c = some t) :
    tokens? (c :: cs) = (tokens? cs).map (t :: ·) := by
  unfold mark? at h
  split at h
  case h_7 => cases h
  all_goals
    cases h
    exact tokens_scan (by decide) rfl

lemma tokens_space {c : Char} (cs : List Char) (h : isSpace c = true) :
    tokens? (c :: cs) = tokens? cs := by
  rw [tokens?, if_pos h]

lemma tokens_gap {gap : List Char} (h : Gap gap) (cs : List Char) :
    tokens? (gap ++ cs) = tokens? cs := by
  induction gap with
  | nil => rfl
  | cons c gap ih =>
    obtain ⟨hc, hgap⟩ := List.forall_mem_cons.1 h
    rw [List.cons_append, tokens_space _ hc, ih hgap]

lemma tokens_of_gap {gap : List Char} (h : Gap gap) : tokens? gap = some [] := by
  simpa [tokens_nil] using tokens_gap h []

/-! ### Numbers -/

lemma isSpace_of_isDigit {c : Char} (h : isDigit c = true) : isSpace c = false := by
  by_contra hspace
  simp only [isSpace, Bool.not_eq_false, Bool.or_eq_true, decide_eq_true_eq] at hspace
  rcases hspace with ((rfl | rfl) | rfl) | rfl <;> exact absurd h (by decide)

lemma isDigit_of_mem_toDigits {n : Nat} {c : Char} (h : c ∈ Nat.toDigits 10 n) :
    isDigit c = true := by
  have hdigit := Nat.isDigit_of_mem_toDigits (by decide) (by decide) h
  simp only [Char.isDigit, Bool.and_eq_true, decide_eq_true_eq, ge_iff_le,
    UInt32.le_iff_toNat_le] at hdigit
  exact isDigit_iff.2 hdigit

lemma digitValue_of_isDigit {c : Char} (h : isDigit c = true) :
    Text.digitValue? 10 c = some (c.toNat - 0x30) := by
  obtain ⟨hlo, hhi⟩ := isDigit_iff.1 h
  have hvalue : c.toNat - 0x30 < 10 := by omega
  simp [Text.digitValue?, hlo, hhi, hvalue]

lemma readDigitsFrom_of_isDigit {cs : List Char} (h : ∀ c ∈ cs, isDigit c = true) (n : Nat) :
    Text.readDigitsFrom 10 n cs = some (Nat.ofDigitChars 10 cs n) := by
  induction cs generalizing n with
  | nil => rfl
  | cons c cs ih =>
    rw [List.forall_mem_cons] at h
    rw [Text.readDigitsFrom, digitValue_of_isDigit h.1, Nat.ofDigitChars_cons, Nat.mul_comm 10]
    exact ih h.2 _

lemma readDigits_toDigits (n : Nat) : Text.readDigits 10 (Nat.toDigits 10 n) = some n := by
  have hdigits : ∀ c ∈ Nat.toDigits 10 n, isDigit c = true := fun c => isDigit_of_mem_toDigits
  rw [Text.readDigits, readDigitsFrom_of_isDigit hdigits, Nat.ofDigitChars_toDigits (by decide)
    (by decide)]
  simp

lemma eq_zero_of_head_toDigits {n : Nat} (h : (Nat.toDigits 10 n).head? = some '0') : n = 0 := by
  induction n using Nat.strongRecOn with
  | _ n ih =>
    rw [Nat.toDigits_eq_if (by decide)] at h
    split at h
    · simpa using h
    · have hne : Nat.toDigits 10 (n / 10) ≠ [] := Nat.toDigits_ne_nil
      obtain ⟨d, ds, hds⟩ := List.exists_cons_of_ne_nil hne
      have hzero : n / 10 = 0 := ih (n / 10) (by omega) (by simpa [hds] using h)
      omega

lemma scanWhole_toDigits (n : Nat) :
    scanWhole (Nat.toDigits 10 n) = some (Nat.toDigits 10 n, []) := by
  have hne : Nat.toDigits 10 n ≠ [] := Nat.toDigits_ne_nil
  have hdigits : ∀ c ∈ Nat.toDigits 10 n, isDigit c = true := fun c => isDigit_of_mem_toDigits
  have htake := List.takeWhile_eq_self_iff.2 hdigits
  have hdrop := List.dropWhile_eq_nil_iff.2 hdigits
  rcases Nat.eq_zero_or_pos n with rfl | hn
  · rfl
  · have hscan : scanDigits (Nat.toDigits 10 n) = some (Nat.toDigits 10 n, []) := by
      rw [scanDigits, htake, hdrop, if_neg (by simp)]
    have hzero : (Nat.toDigits 10 n).head? ≠ some '0' := fun h =>
      Nat.ne_of_gt hn (eq_zero_of_head_toDigits h)
    obtain ⟨d, ds, hds⟩ := List.exists_cons_of_ne_nil hne
    rw [hds] at hscan hzero ⊢
    rw [scanWhole.eq_2 _ (by simpa using hzero), hscan]

lemma tokens_toDigits (n : Nat) :
    tokens? (Nat.toDigits 10 n) = some [.num (.ofNat n)] := by
  have hscan : scanUnsigned false (Nat.toDigits 10 n) = some (.ofNat n, []) := by
    simp [scanUnsigned, scanWhole_toDigits, scanFraction, scanExponent, Text.Numeral.ofNat]
  obtain ⟨d, ds, hds⟩ := List.exists_cons_of_ne_nil (Nat.toDigits_ne_nil (b := 10) (n := n))
  rw [hds] at hscan ⊢
  have hdigit : isDigit d = true := isDigit_of_mem_toDigits (hds ▸ List.mem_cons_self)
  have hspace := isSpace_of_isDigit hdigit
  have htoken : scanToken (d :: ds) = some (.num (.ofNat n), []) := by
    rw [scanToken_digit ds hdigit, hscan]
    rfl
  exact tokens_single hspace htoken

/-! ### Values -/

/-- The tokens lead the reader from one state to the other. -/
def State.Leads (s : State) (ts : List Token) (s' : State) : Prop :=
  ts.foldlM State.step s = some s'

namespace State.Leads

variable {s s₁ s' : State} {t : Token} {ts ts' : List Token} {stack : List Frame}

lemma nil (s : State) : s.Leads [] s := rfl

lemma cons (h : s.step t = some s₁) (hrest : s₁.Leads ts s') : s.Leads (t :: ts) s' := by
  rw [Leads, List.foldlM_cons, h]
  exact hrest

lemma append (h : s.Leads ts s₁) (hrest : s₁.Leads ts' s') : s.Leads (ts ++ ts') s' := by
  rw [Leads, List.foldlM_append, h]
  exact hrest

lemma firstItem (h : (value (.array [] :: stack)).Leads ts s')
    (hs : s' ≠ value (.array [] :: stack)) : (State.firstItem stack).Leads ts s' := by
  cases ts with
  | nil => exact absurd (Option.some.inj h).symm hs
  | cons t ts =>
    rw [Leads, List.foldlM_cons] at h ⊢
    cases t with
    | closeArray => simp [step, begin?] at h
    | _ => exact h

lemma firstKey (h : (key [] stack).Leads ts s') (hs : s' ≠ key [] stack) :
    (State.firstKey stack).Leads ts s' := by
  cases ts with
  | nil => exact absurd (Option.some.inj h).symm hs
  | cons t ts =>
    rw [Leads, List.foldlM_cons] at h ⊢
    cases t with
    | str => exact h
    | _ => simp [step] at h

end State.Leads

/-- The tokens lead over a part, whatever is open around it. -/
def Part.IsRead : Part → List Token → Prop
  | value v, ts | element v, ts => ∀ stack, (State.value stack).Leads ts (.complete v stack)
  | items [], ts => ts = []
  | items (v :: vs), ts => ∀ before stack, (State.value (.array before :: stack)).Leads ts
      (.afterItem ((v :: vs).reverse ++ before) stack)
  | members [], ts => ts = []
  | members (m :: ms), ts => ∀ before stack, (State.key before stack).Leads ts
      (.afterMember (((m :: ms).map fun (k, v) => (some k, v)).reverse ++ before) stack)

/-- The text is made of tokens that lead over the part. -/
def Part.Legible (part : Part) (cs : List Char) : Prop :=
  ∃ ts, tokens? cs = some ts ∧ part.IsRead ts

lemma endsNumber_gap {gap cs : List Char} (h : Gap gap) (hcs : EndsNumber cs) :
    EndsNumber (gap ++ cs) := by
  cases gap with
  | nil => exact hcs
  | cons c gap =>
    have hc : isSpace c = true := h c List.mem_cons_self
    simp only [isSpace, Bool.or_eq_true, decide_eq_true_eq] at hc
    rintro d ⟨⟩
    rcases hc with ((rfl | rfl) | rfl) | rfl <;> decide

lemma endsNumber_mark {c : Char} {t : Token} (cs : List Char) (h : mark? c = some t) :
    EndsNumber (c :: cs) := by
  unfold mark? at h
  rintro d ⟨⟩
  split at h
  case h_7 => cases h
  all_goals decide

lemma tokens_comma {cs later : List Char} {ts ts' : List Token} (h : tokens? cs = some ts)
    (hlater : tokens? later = some ts') :
    tokens? (cs ++ ',' :: later) = some (ts ++ .comma :: ts') := by
  rw [tokens_append h (endsNumber_mark (c := ',') _ rfl), tokens_mark (c := ',') _ rfl, hlater]
  rfl

namespace Part

variable {v w : Json} {vs : List Json} {k : String} {m n : String × Json}
  {ms : List (String × Json)} {cs later before after between name : List Char}

lemma legible_arr (h : (items vs).Legible cs) :
    (value (.arr vs)).Legible ('[' :: (cs ++ [']'])) := by
  obtain ⟨ts, hts, hread⟩ := h
  refine ⟨.openArray :: (ts ++ [.closeArray]), ?_, fun stack => ?_⟩
  · rw [tokens_mark (c := '[') _ rfl, tokens_append hts (endsNumber_mark (c := ']') _ rfl),
      tokens_mark (c := ']') _ rfl, tokens_nil]
    rfl
  · cases vs with
    | nil =>
      obtain rfl : ts = [] := hread
      rfl
    | cons v vs =>
      have hfirst := (hread [] stack).firstItem (by simp)
      refine .cons rfl (hfirst.append (.cons (t := .closeArray) ?_ (.nil _)))
      simp [State.step]

lemma legible_record (h : (members ms).Legible cs) :
    (value (.record ms)).Legible ('\x7b' :: (cs ++ ['\x7d'])) := by
  obtain ⟨ts, hts, hread⟩ := h
  refine ⟨.openObject :: (ts ++ [.closeObject]), ?_, fun stack => ?_⟩
  · rw [tokens_mark (c := '\x7b') _ rfl, tokens_append hts (endsNumber_mark (c := '\x7d') _ rfl),
      tokens_mark (c := '\x7d') _ rfl, tokens_nil]
    rfl
  · cases ms with
    | nil =>
      obtain rfl : ts = [] := hread
      rfl
    | cons m ms =>
      have hfirst := (hread [] stack).firstKey (by simp)
      refine .cons rfl (hfirst.append (.cons (t := .closeObject) ?_ (.nil _)))
      simp [State.step, Json.record]

lemma legible_element (hbefore : Gap before) (h : (value v).Legible cs) (hafter : Gap after) :
    (element v).Legible (before ++ (cs ++ after)) := by
  obtain ⟨ts, hts, hread⟩ := h
  have hend : EndsNumber after := by simpa using endsNumber_gap hafter .nil
  refine ⟨ts, ?_, hread⟩
  rw [tokens_gap hbefore, tokens_append hts hend, tokens_of_gap hafter]
  simp

lemma legible_item (h : (element v).Legible cs) : (items [v]).Legible cs := by
  obtain ⟨ts, hts, hread⟩ := h
  exact ⟨ts, hts, fun before stack => hread (.array before :: stack)⟩

lemma legible_items (h : (element v).Legible cs) (hlater : (items (w :: vs)).Legible later) :
    (items (v :: w :: vs)).Legible (cs ++ ',' :: later) := by
  obtain ⟨ts, hts, hread⟩ := h
  obtain ⟨ts', hts', hread'⟩ := hlater
  refine ⟨ts ++ .comma :: ts', tokens_comma hts hts', fun before stack => ?_⟩
  have hnext := (hread (.array before :: stack)).append
    (.cons (t := .comma) rfl (hread' (v :: before) stack))
  simpa using hnext

lemma legible_member (hbefore : Gap before) (hname : Quoted k name) (hbetween : Gap between)
    (h : (element v).Legible cs) :
    (members [(k, v)]).Legible (before ++ (name ++ (between ++ ':' :: cs))) := by
  obtain ⟨ts, hts, hread⟩ := h
  have hend : EndsNumber (between ++ ':' :: cs) :=
    endsNumber_gap hbetween (endsNumber_mark (c := ':') _ rfl)
  refine ⟨.str (some k) :: .colon :: ts, ?_, fun before stack => ?_⟩
  · rw [tokens_gap hbefore, tokens_append (tokens_quoted hname) hend, tokens_gap hbetween,
      tokens_mark (c := ':') _ rfl, hts]
    rfl
  · exact .cons rfl (.cons rfl (hread (.object before (some k) :: stack)))

lemma legible_members (h : (members [m]).Legible cs) (hlater : (members (n :: ms)).Legible later) :
    (members (m :: n :: ms)).Legible (cs ++ ',' :: later) := by
  obtain ⟨ts, hts, hread⟩ := h
  obtain ⟨ts', hts', hread'⟩ := hlater
  refine ⟨ts ++ .comma :: ts', tokens_comma hts hts', fun before stack => ?_⟩
  have hnext := (hread before stack).append
    (.cons (t := .comma) rfl (hread' ((some m.1, m.2) :: before) stack))
  simpa using hnext

end Part

lemma Written.legible {part : Part} {cs : List Char} (h : Written part cs) : part.Legible cs := by
  induction h with
  | null => exact ⟨[.null], tokens_single (by decide) rfl, fun stack => rfl⟩
  | false => exact ⟨[.bool .false], tokens_single (by decide) rfl, fun stack => rfl⟩
  | true => exact ⟨[.bool .true], tokens_single (by decide) rfl, fun stack => rfl⟩
  | nat n => exact ⟨[.num (.ofNat n)], tokens_toDigits n, fun stack => rfl⟩
  | text h => exact ⟨_, tokens_quoted h, fun stack => rfl⟩
  | arr _ ih => exact Part.legible_arr ih
  | record _ ih => exact Part.legible_record ih
  | element hbefore _ hafter ih => exact Part.legible_element hbefore ih hafter
  | noItem h => exact ⟨[], tokens_of_gap h, rfl⟩
  | item _ ih => exact Part.legible_item ih
  | items _ _ ih ihlater => exact Part.legible_items ih ihlater
  | noMember h => exact ⟨[], tokens_of_gap h, rfl⟩
  | member hbefore hname hbetween _ ih => exact Part.legible_member hbefore hname hbetween ih
  | members _ _ ih ihlater => exact Part.legible_members ih ihlater

lemma Written.brackets {vs : List Json} {cs : List Char} (h : Written (.value (.arr vs)) cs) :
    ∃ inner, cs = '[' :: (inner ++ [']']) := by
  generalize hpart : Part.value (.arr vs) = part at h
  cases h with
  | arr => exact ⟨_, rfl⟩
  | _ => simp [Json.nat, Json.text, Json.record] at hpart

lemma Part.read_of_legible {v : Json} {cs : List Char} (h : (element v).Legible cs) :
    read? cs = some v := by
  obtain ⟨ts, hts, hread⟩ := h
  have hdone : ts.foldlM State.step (.value []) = some (.done v) := hread []
  rw [read?, hts, Option.bind_some, ofTokens?, hdone]

/-- **Every way of writing is read.** A text that writes a value is read as that value. -/
lemma Written.read {v : Json} {cs : List Char} (h : Written (.value v) cs) :
    read? cs = some v :=
  Part.read_of_legible h.legible

end SiteLint.Json
