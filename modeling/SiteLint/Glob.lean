import SiteLint.Text.Line

/-!
Wildcard patterns for names.

A star stands for any text, a question mark for any one character, and brackets for one character
of a set, or outside it after an exclamation mark. Two stars are a pattern of their own and stand
for any number of directories; more stars in a row, or two stars beside anything else, are refused.
-/

namespace SiteLint.Glob

/-- A member of a bracketed set. -/
inductive Span
  | one (c : Char)
  | range (lo hi : Char)
  deriving DecidableEq, Repr

/-- The set holds the character. -/
def Span.holds (x : Char) : Span → Bool
  | one c => x = c
  | range lo hi => lo ≤ x && x ≤ hi

/-- What one position of a pattern matches. -/
inductive Token
  | char (c : Char)
  | anyChar
  | anyText
  | oneOf (spans : List Span)
  | noneOf (spans : List Span)
  deriving DecidableEq, Repr

/-- The token matches the single character; `anyText` is not met here. -/
def Token.accepts (x : Char) : Token → Bool
  | char c => x = c
  | anyChar => true
  | anyText => true
  | oneOf spans => spans.any (·.holds x)
  | noneOf spans => !spans.any (·.holds x)

/-- Tokens against a whole text. -/
def matchesAll : List Token → List Char → Bool
  | [], [] => true
  | [], _ :: _ => false
  | Token.anyText :: ts, [] => matchesAll ts []
  | Token.anyText :: ts, c :: cs => matchesAll ts (c :: cs) || matchesAll (Token.anyText :: ts) cs
  | _ :: _, [] => false
  | t :: ts, c :: cs => t.accepts c && matchesAll ts cs
  termination_by ts cs => (ts.length, cs.length)

/-- The pattern of one path component. -/
inductive Pattern
  /-- Two stars: directories at any depth. -/
  | anyDepth
  | tokens (ts : List Token)
  deriving DecidableEq, Repr

/-- The members of a bracketed set; a hyphen between two characters makes a range. -/
def spans : List Char → List Span
  | a :: '-' :: b :: cs => Span.range a b :: spans cs
  | a :: cs => Span.one a :: spans cs
  | [] => []

/-- The characters of a set up to the closing bracket, and what follows it. The first character
belongs to the set even when it is a bracket. -/
def splitSet : List Char → Option (List Char × List Char)
  | [] => none
  | c :: cs =>
    match cs.dropWhile (· ≠ ']') with
    | [] => none
    | _ :: rest => some (c :: cs.takeWhile (· ≠ ']'), rest)

theorem splitSet_length {cs set rest : List Char} (h : splitSet cs = some (set, rest)) :
    rest.length < cs.length := by
  unfold splitSet at h
  split at h
  · simp at h
  · next c cs =>
    split at h
    · simp at h
    · next x r hd =>
      simp only [Option.some.injEq, Prod.mk.injEq] at h
      have := (List.dropWhile_suffix (l := cs) (· ≠ ']')).length_le
      rw [hd] at this
      simp only [List.length_cons] at this ⊢
      rw [← h.2]
      omega

/-- The tokens of a pattern without two stars in a row. -/
def tokenize : List Char → Option (List Token)
  | [] => some []
  | '?' :: cs => (tokenize cs).map (Token.anyChar :: ·)
  | '*' :: '*' :: _ => none
  | '*' :: cs => (tokenize cs).map (Token.anyText :: ·)
  | '[' :: '!' :: cs =>
    match _h : splitSet cs with
    | some (set, rest) => (tokenize rest).map (Token.noneOf (spans set) :: ·)
    | none => none
  | '[' :: cs =>
    match _h : splitSet cs with
    | some (set, rest) => (tokenize rest).map (Token.oneOf (spans set) :: ·)
    | none => none
  | c :: cs => (tokenize cs).map (Token.char c :: ·)
  termination_by cs => cs.length
  decreasing_by
    all_goals simp only [List.length_cons]
    all_goals try have := splitSet_length _h
    all_goals omega

/-- The pattern that a text writes, when it writes one. -/
def compile? (cs : List Char) : Option Pattern :=
  if cs = ['*', '*'] then some Pattern.anyDepth else (tokenize cs).map Pattern.tokens

/-- The text has a character with a meaning of its own in patterns. -/
def hasWildcard (cs : List Char) : Bool := cs.any fun c => c = '*' || c = '?' || c = '['

/-- The pattern that matches a text and nothing else: each character stands for itself. -/
def literal (cs : List Char) : Pattern := .tokens (cs.map Token.char)

/-- The name matches the pattern. -/
def Pattern.accepts (n : List Char) : Pattern → Bool
  | anyDepth => true
  | tokens ts => matchesAll ts n

/-- The text of a pattern whose tokens all stand for themselves. -/
def Pattern.literal? : Pattern → Option (List Char)
  | anyDepth => none
  | tokens ts => ts.mapM fun
    | Token.char c => some c
    | _ => none

end SiteLint.Glob
