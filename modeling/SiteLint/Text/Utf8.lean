/-!
Texts in UTF-8: written as bytes, and read from them.

Strict reading refuses ill-formed bytes. Lenient reading puts one replacement character for each
longest start of a well-formed sequence, and for each byte that starts none.
-/

namespace SiteLint.Text.Utf8

/-- The bytes that a text is stored as. -/
def encode (cs : List Char) : List UInt8 := cs.flatMap String.utf8EncodeChar

/-- The byte continues a sequence. -/
def isTail (b : UInt8) : Bool := 0x80 ≤ b && b ≤ 0xBF

/-- The six bits a continuing byte carries. -/
def payload (b : UInt8) : Nat := b.toNat % 0x40

/-- The second bytes allowed after a lead byte of three or four bytes: they rule out overlong
forms, surrogates and code points above the last one. -/
def secondOk (lead second : UInt8) : Bool :=
  isTail second &&
    (if lead = 0xE0 then 0xA0 ≤ second
     else if lead = 0xED then second ≤ 0x9F
     else if lead = 0xF0 then 0x90 ≤ second
     else if lead = 0xF4 then second ≤ 0x8F
     else true)

/-- One step of reading: the character that the bytes start with, or none for an ill-formed part,
and what follows. -/
def step (b : UInt8) (rest : List UInt8) : Option Char × List UInt8 :=
  if b < 0x80 then (some (Char.ofNat b.toNat), rest)
  else if 0xC2 ≤ b && b ≤ 0xDF then
    match rest with
    | c :: rest' =>
      if isTail c then (some (Char.ofNat (b.toNat % 0x20 * 0x40 + payload c)), rest') else (none, rest)
    | [] => (none, [])
  else if 0xE0 ≤ b && b ≤ 0xEF then
    match rest with
    | c :: rest' =>
      if secondOk b c then
        match rest' with
        | d :: rest'' =>
          if isTail d then
            (some (Char.ofNat ((b.toNat % 0x10 * 0x40 + payload c) * 0x40 + payload d)), rest'')
          else (none, rest')
        | [] => (none, [])
      else (none, rest)
    | [] => (none, [])
  else if 0xF0 ≤ b && b ≤ 0xF4 then
    match rest with
    | c :: rest' =>
      if secondOk b c then
        match rest' with
        | d :: rest'' =>
          if isTail d then
            match rest'' with
            | e :: rest''' =>
              if isTail e then
                (some (Char.ofNat
                  (((b.toNat % 0x08 * 0x40 + payload c) * 0x40 + payload d) * 0x40 + payload e)),
                  rest''')
              else (none, rest'')
            | [] => (none, [])
          else (none, rest')
        | [] => (none, [])
      else (none, rest)
    | [] => (none, [])
  else (none, rest)

theorem step_length_le (b : UInt8) (rest : List UInt8) : (step b rest).2.length ≤ rest.length := by
  unfold step
  repeat' split
  all_goals simp
  all_goals omega

/-- The characters of the bytes, with `none` for each ill-formed part. -/
def decode : List UInt8 → List (Option Char)
  | [] => []
  | b :: rest => (step b rest).1 :: decode (step b rest).2
  termination_by bs => bs.length
  decreasing_by
    have := step_length_le b rest
    simp only [List.length_cons]
    omega

/-- The text of well-formed bytes. -/
def text? (bs : List UInt8) : Option (List Char) := (decode bs).mapM id

/-- The text of any bytes, with U+FFFD for each ill-formed part. -/
def lenientText (bs : List UInt8) : List Char := (decode bs).map (·.getD '\uFFFD')

end SiteLint.Text.Utf8
