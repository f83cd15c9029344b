import SiteLint.Json

/-!
The tokens of a JSON text.

Between tokens stand space, tab, carriage return and line feed. A string is read piece by piece:
a piece is a character, or a code unit given by four hexadecimal digits. Two units can make one
character, so the text is put together afterwards.
-/

namespace SiteLint.Json

inductive Token
  | openArray
  | closeArray
  | openObject
  | closeObject
  | comma
  | colon
  | null
  | bool (b : Bool)
  | num (n : Text.Numeral)
  | str (text : Option String)
  deriving DecidableEq, Repr

/-- Characters allowed between tokens. -/
def isSpace (c : Char) : Bool := c = ' ' || c = '\t' || c = '\n' || c = '\r'

/-- A part of a string between its quotes. -/
inductive Piece
  | char (c : Char)
  | unit (n : Nat)
  deriving DecidableEq, Repr

/-- The character that a letter after a backslash stands for. -/
def unescape? : Char → Option Char
  | '"' => some '"'
  | '\\' => some '\\'
  | '/' => some '/'
  | 'b' => some '\x08'
  | 'f' => some '\x0c'
  | 'n' => some '\n'
  | 'r' => some '\r'
  | 't' => some '\t'
  | _ => none

/-- The pieces up to the closing quote, and what follows it. -/
def scanString : List Char → Option (List Piece × List Char)
  | [] => none
  | '"' :: cs => some ([], cs)
  | '\\' :: 'u' :: a :: b :: c :: d :: cs => do
    let n ← Text.readDigits 16 [a, b, c, d]
    let (ps, rest) ← scanString cs
    some (Piece.unit n :: ps, rest)
  | '\\' :: e :: cs => do
    let c ← unescape? e
    let (ps, rest) ← scanString cs
    some (Piece.char c :: ps, rest)
  | c :: cs =>
    if c.toNat < 0x20 then none
    else do
      let (ps, rest) ← scanString cs
      some (Piece.char c :: ps, rest)

/-- The unit is the first half of a pair. -/
def isHigh (n : Nat) : Bool := 0xD800 ≤ n && n ≤ 0xDBFF

/-- The unit is the second half of a pair. -/
def isLow (n : Nat) : Bool := 0xDC00 ≤ n && n ≤ 0xDFFF

/-- The text that pieces make; nothing when half of a pair is left over. -/
def assemble : List Piece → Option (List Char)
  | [] => some []
  | Piece.char c :: ps => (assemble ps).map (c :: ·)
  | Piece.unit n :: Piece.unit m :: ps =>
    if isHigh n then
      if isLow m then
        (assemble ps).map (Char.ofNat ((n - 0xD800) * 0x400 + (m - 0xDC00) + 0x10000) :: ·)
      else none
    else if isLow n then none
    else (assemble (Piece.unit m :: ps)).map (Char.ofNat n :: ·)
  | Piece.unit n :: ps =>
    if isHigh n || isLow n then none else (assemble ps).map (Char.ofNat n :: ·)

/-- An ASCII digit. -/
def isDigit (c : Char) : Bool := (Text.digitValue? 10 c).isSome

/-- The digits a text starts with, at least one, and what follows them. -/
def scanDigits (cs : List Char) : Option (List Char × List Char) :=
  if (cs.takeWhile isDigit).isEmpty then none
  else some (cs.takeWhile isDigit, cs.dropWhile isDigit)

/-- The digits before the point: a leading zero stands alone. -/
def scanWhole : List Char → Option (List Char × List Char)
  | '0' :: cs => some (['0'], cs)
  | cs => scanDigits cs

/-- The digits after a point, when there is a point. -/
def scanFraction : List Char → Option (Option (List Char) × List Char)
  | '.' :: cs => (scanDigits cs).map fun (ds, rest) => (some ds, rest)
  | cs => some (none, cs)

/-- The power of ten after its letter, when there is one. -/
def scanExponent : List Char → Option (Option Int × List Char)
  | e :: cs =>
    if e = 'e' || e = 'E' then
      let (negative, cs) : Bool × List Char :=
        match cs with
        | '-' :: r => (true, r)
        | '+' :: r => (false, r)
        | r => (false, r)
      (scanDigits cs).map fun (ds, rest) =>
        let n : Int := ((Text.readDigitsFrom 10 0 ds).getD 0 : Nat)
        (some (if negative then -n else n), rest)
    else some (none, e :: cs)
  | [] => some (none, [])

/-- A number without its sign. -/
def scanUnsigned (negative : Bool) (cs : List Char) : Option (Text.Numeral × List Char) := do
  let (whole, cs) ← scanWhole cs
  let (fraction, cs) ← scanFraction cs
  let (exponent, cs) ← scanExponent cs
  some (⟨negative, whole, fraction, exponent⟩, cs)

/-- The token that a text starts with, and what follows it. The text starts with no space. -/
def scanToken : List Char → Option (Token × List Char)
  | '[' :: cs => some (.openArray, cs)
  | ']' :: cs => some (.closeArray, cs)
  | '\x7b' :: cs => some (.openObject, cs)
  | '\x7d' :: cs => some (.closeObject, cs)
  | ',' :: cs => some (.comma, cs)
  | ':' :: cs => some (.colon, cs)
  | 'n' :: 'u' :: 'l' :: 'l' :: cs => some (.null, cs)
  | 't' :: 'r' :: 'u' :: 'e' :: cs => some (.bool true, cs)
  | 'f' :: 'a' :: 'l' :: 's' :: 'e' :: cs => some (.bool false, cs)
  | '"' :: cs =>
    (scanString cs).map fun (ps, rest) => (.str ((assemble ps).map String.ofList), rest)
  | '-' :: cs => (scanUnsigned true cs).map fun (n, rest) => (.num n, rest)
  | cs => (scanUnsigned false cs).map fun (n, rest) => (.num n, rest)

theorem scanString_length {cs rest : List Char} {ps : List Piece}
    (h : scanString cs = some (ps, rest)) : rest.length < cs.length := by
  fun_induction scanString cs generalizing ps rest with
  | case1 => simp at h
  | case2 => simp at h; simp [h]
  | case3 a b c d cs ih =>
    simp only [Option.bind_eq_bind, Option.bind_eq_some_iff, Option.some.injEq, Prod.mk.injEq,
      Prod.exists] at h
    obtain ⟨n, -, qs, r, hs, -, rfl⟩ := h
    have := ih hs
    simp only [List.length_cons]
    omega
  | case4 e cs _ ih =>
    simp only [Option.bind_eq_bind, Option.bind_eq_some_iff, Option.some.injEq, Prod.mk.injEq,
      Prod.exists] at h
    obtain ⟨n, -, qs, r, hs, -, rfl⟩ := h
    have := ih hs
    simp only [List.length_cons]
    omega
  | case5 => simp at h
  | case6 c cs _ _ _ _ ih =>
    simp only [Option.bind_eq_bind, Option.bind_eq_some_iff, Option.some.injEq, Prod.mk.injEq,
      Prod.exists] at h
    obtain ⟨qs, r, hs, -, rfl⟩ := h
    have := ih hs
    simp only [List.length_cons]
    omega

theorem scanDigits_length {cs ds rest : List Char} (h : scanDigits cs = some (ds, rest)) :
    rest.length < cs.length := by
  unfold scanDigits at h
  split at h
  · simp at h
  · next hne =>
    simp only [Option.some.injEq, Prod.mk.injEq] at h
    have := congrArg List.length (List.takeWhile_append_dropWhile (p := isDigit) (l := cs))
    rw [List.length_append, h.2] at this
    have : 0 < (cs.takeWhile isDigit).length := by
      rw [List.length_pos_iff]
      simpa using hne
    omega

theorem scanFraction_length {cs rest : List Char} {f : Option (List Char)}
    (h : scanFraction cs = some (f, rest)) : rest.length ≤ cs.length := by
  unfold scanFraction at h
  split at h
  · simp only [Option.map_eq_some_iff, Prod.mk.injEq, Prod.exists] at h
    obtain ⟨ds, r, hd, -, rfl⟩ := h
    have := scanDigits_length hd
    simp only [List.length_cons]
    omega
  · simp only [Option.some.injEq, Prod.mk.injEq] at h
    exact Nat.le_of_eq (congrArg List.length h.2.symm)

theorem scanExponent_length {cs rest : List Char} {e : Option Int}
    (h : scanExponent cs = some (e, rest)) : rest.length ≤ cs.length := by
  unfold scanExponent at h
  split at h
  · split at h
    · simp only [Option.map_eq_some_iff, Prod.mk.injEq, Prod.exists] at h
      obtain ⟨ds, r, hd, -, rfl⟩ := h
      have := scanDigits_length hd
      split at this <;> simp only [List.length_cons] at * <;> omega
    · simp only [Option.some.injEq, Prod.mk.injEq] at h
      exact Nat.le_of_eq (congrArg List.length h.2.symm)
  · simp only [Option.some.injEq, Prod.mk.injEq] at h
    exact Nat.le_of_eq (congrArg List.length h.2.symm)

theorem scanUnsigned_length {negative : Bool} {cs rest : List Char} {n : Text.Numeral}
    (h : scanUnsigned negative cs = some (n, rest)) : rest.length < cs.length := by
  simp only [scanUnsigned, Option.bind_eq_bind, Option.bind_eq_some_iff, Option.some.injEq,
    Prod.mk.injEq, Prod.exists] at h
  obtain ⟨w, r1, h1, f, r2, h2, e, r3, h3, -, rfl⟩ := h
  have l2 := scanFraction_length h2
  have l3 := scanExponent_length h3
  have l1 : r1.length < cs.length := by
    unfold scanWhole at h1
    split at h1
    · simp only [Option.some.injEq, Prod.mk.injEq] at h1
      rw [← h1.2]; simp
    · exact scanDigits_length h1
  omega

theorem scanToken_length {cs rest : List Char} {t : Token}
    (h : scanToken cs = some (t, rest)) : rest.length < cs.length := by
  unfold scanToken at h
  split at h
  case h_10 =>
    simp only [Option.map_eq_some_iff, Prod.mk.injEq, Prod.exists] at h
    obtain ⟨ps, r, hs, -, rfl⟩ := h
    have := scanString_length hs
    simp only [List.length_cons]
    omega
  case h_11 =>
    simp only [Option.map_eq_some_iff, Prod.mk.injEq, Prod.exists] at h
    obtain ⟨n, r, hs, -, rfl⟩ := h
    have := scanUnsigned_length hs
    simp only [List.length_cons]
    omega
  case h_12 =>
    simp only [Option.map_eq_some_iff, Prod.mk.injEq, Prod.exists] at h
    obtain ⟨n, r, hs, -, rfl⟩ := h
    exact scanUnsigned_length hs
  all_goals
    simp only [Option.some.injEq, Prod.mk.injEq] at h
    rw [← h.2]
    simp only [List.length_cons]
    omega

/-- The tokens of a whole text. -/
def tokens? (cs : List Char) : Option (List Token) :=
  match cs with
  | [] => some []
  | c :: cs =>
    if isSpace c then tokens? cs
    else
      match _h : scanToken (c :: cs) with
      | none => none
      | some (t, rest) => (tokens? rest).map (t :: ·)
  termination_by cs.length
  decreasing_by
    · simp
    · simpa using scanToken_length _h

end SiteLint.Json
