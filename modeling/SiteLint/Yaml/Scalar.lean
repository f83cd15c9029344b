import SiteLint.Text.Digit
import SiteLint.Yaml
import SiteLint.Yaml.Cursor

/-!
The texts of YAML scalars.

Where a text goes over several lines, a single line break counts as a space and further ones count
as themselves. Block texts keep their line breaks, or fold them between lines that do not start
with a blank.
-/

namespace SiteLint.Yaml

/-- The blanks and line breaks between two parts of a flowing text. -/
structure Gap where
  /-- Blanks before the first line break. -/
  blanks : List Char
  /-- A line break was met, or escaped. -/
  broken : Bool
  /-- The first line break. -/
  first : List Char
  /-- The line breaks after it. -/
  more : List Char

namespace Gap

def none : Gap := ⟨[], false, [], []⟩

/-- The text that a gap counts as. -/
def text (g : Gap) : List Char :=
  if g.broken then
    if g.first = ['\n'] then (if g.more = [] then [' '] else g.more)
    else g.first ++ g.more
  else g.blanks

end Gap

/-- Reads a gap. With `indent`, a tab that stands in front of that column after a line break is
refused. -/
def scanGap (indent : Option Nat) : Nat → Gap → Cursor → Option (Gap × Cursor)
  | 0, _, _ => .none
  | fuel + 1, g, c =>
    match c.peek with
    | .none => some (g, c)
    | some x =>
      if isBlank x then
        if g.broken && x = '\t' && indent.any (c.column < ·) then .none
        else
          scanGap indent fuel (if g.broken then g else { g with blanks := g.blanks ++ [x] })
            (c.skip 1)
      else if isBreak x then
        scanGap indent fuel
          (if g.broken then { g with more := g.more ++ c.breakText }
           else { g with blanks := [], broken := true, first := c.breakText })
          c.skipBreak
      else some (g, c)

/-- The character that a letter after a backslash stands for. -/
def escapeLetter? : Char → Option Char
  | '0' => some '\x00'
  | 'a' => some '\x07'
  | 'b' => some '\x08'
  | 't' => some '\t'
  | '\t' => some '\t'
  | 'n' => some '\n'
  | 'v' => some '\x0b'
  | 'f' => some '\x0c'
  | 'r' => some '\r'
  | 'e' => some '\x1b'
  | ' ' => some ' '
  | '"' => some '"'
  | '\'' => some '\''
  | '/' => some '/'
  | '\\' => some '\\'
  | 'N' => some '\x85'
  | '_' => some '\xa0'
  | 'L' => some '\u2028'
  | 'P' => some '\u2029'
  | _ => none

/-- How many hexadecimal digits follow the letter of an escape. -/
def escapeWidth? : Char → Option Nat
  | 'x' => some 2
  | 'u' => some 4
  | 'U' => some 8
  | _ => none

/-- The character that an escape stands for and the number of characters it takes after the
backslash. -/
def scanEscape (cs : List Char) : Option (Char × Nat) :=
  match cs with
  | [] => none
  | l :: cs =>
    match escapeWidth? l with
    | some w => do
      let ds := cs.take w
      if ds.length ≠ w then none
      let n ← Text.readDigits 16 ds
      if (0xD800 ≤ n && n ≤ 0xDFFF) || 0x10FFFF < n then none
      some (Char.ofNat n, w + 1)
    | none => (escapeLetter? l).map (·, 1)

/-- The characters of a quoted text up to the next gap or the closing quote. The flag tells that
the part ended with an escaped line break. -/
def scanQuotedPart (single : Bool) : Nat → List Char → Cursor → Option (List Char × Bool × Cursor)
  | 0, _, _ => none
  | fuel + 1, done, c =>
    match c.rest with
    | [] => some (done, false, c)
    | x :: cs =>
      if isBlank x || isBreak x then some (done, false, c)
      else if single then
        if x = '\'' then
          if cs.head? = some '\'' then scanQuotedPart single fuel (done ++ ['\'']) (c.skip 2)
          else some (done, false, c)
        else scanQuotedPart single fuel (done ++ [x]) (c.skip 1)
      else if x = '"' then some (done, false, c)
      else if x = '\\' then
        if cs.head?.any isBreak then some (done, true, (c.skip 1).skipBreak)
        else do
          let (y, n) ← scanEscape cs
          scanQuotedPart single fuel (done ++ [y]) (c.skip (n + 1))
      else scanQuotedPart single fuel (done ++ [x]) (c.skip 1)

/-- A quoted text after its opening quote, up to and with the closing one. -/
def scanQuoted (single : Bool) : Nat → List Char → Cursor → Option (List Char × Cursor)
  | 0, _, _ => none
  | fuel + 1, done, c => do
    if c.atDocumentMark || c.atEnd then none
    let (done, escaped, c) ← scanQuotedPart single c.fuel done c
    if c.sees (if single then '\'' else '"') then some (done, c.skip 1)
    else
      let (g, c) ← scanGap none c.fuel { Gap.none with broken := escaped } c
      scanQuoted single fuel (done ++ g.text) c

/-- A character that separates or closes inside brackets and braces. -/
def isFlowMark (c : Char) : Bool := c = ',' || c = '[' || c = ']' || c = '\x7b' || c = '\x7d'

/-- The characters of a plain text up to the next gap or the mark that ends the text. -/
def scanPlainPart (inFlow : Bool) : Nat → List Char → Cursor → Option (List Char × Cursor)
  | 0, _, _ => none
  | fuel + 1, done, c =>
    match c.rest with
    | [] => some (done, c)
    | x :: cs =>
      if isBlank x || isBreak x then some (done, c)
      else if inFlow && x = ':' && cs.head?.any (fun y => isFlowMark y || y = '?') then none
      else if (x = ':' && c.gapAt 1) || (inFlow && isFlowMark x) then some (done, c)
      else scanPlainPart inFlow fuel (done ++ [x]) (c.skip 1)

/-- A plain text whose further lines start at column `indent` or later. `done` is what is read so
far and `gap` what was met after it, which counts only when more text follows. Also tells whether
a line break was met after the text. -/
def scanPlain (inFlow : Bool) (indent : Nat) :
    Nat → List Char → Gap → Cursor → Option (List Char × Bool × Cursor)
  | 0, _, _, _ => none
  | fuel + 1, done, gap, c => do
    if c.atDocumentMark || c.sees '#' then some (done, gap.broken, c)
    else
      let (part, c) ← scanPlainPart inFlow c.fuel [] c
      let (done, broken) :=
        if part = [] then (done, gap.broken) else (done ++ gap.text ++ part, false)
      if !(c.atBlank || c.atBreak) then some (done, broken, c)
      else
        let (g, c) ← scanGap (some indent) c.fuel
          (if part = [] then gap else Gap.none) c
        if !inFlow && c.column < indent then some (done, g.broken, c)
        else scanPlain inFlow indent fuel done g c

/-- What happens to the line breaks at the end of a block text. -/
inductive Chomp
  /-- One is kept. -/
  | clip
  /-- None is kept. -/
  | strip
  /-- All are kept. -/
  | keep
  deriving DecidableEq

/-- The marks after the bar or angle of a block text: what happens at its end, and how many
columns it is indented by. -/
def scanBlockHeader (c : Cursor) : Option (Chomp × Nat × Cursor) :=
  let chompAt (c : Cursor) : Chomp × Cursor :=
    if c.sees '+' then (.keep, c.skip 1)
    else if c.sees '-' then (.strip, c.skip 1)
    else (.clip, c)
  let widthAt (c : Cursor) : Option (Nat × Cursor) :=
    match c.peek.bind (Text.digitValue? 10) with
    | some 0 => none
    | some n => some (n, c.skip 1)
    | none => some (0, c)
  do
    let (chomp, d) := chompAt c
    let (width, d) ← widthAt d
    let (chomp, d) := if d.column = c.column || chomp ≠ .clip then (chomp, d) else chompAt d
    let d := (d.skipWhile isBlank).skipComment
    if !d.atLineEnd then none
    some (chomp, width, if d.atBreak then d.skipBreak else d)

/-- The line breaks in front of a line of a block text, and the blanks that indent it. An indent of
0 is still to be found out: then all spaces count, and the widest line decides. -/
def scanBlockBreaks (indent : Nat) :
    Nat → Nat → List Char → Cursor → Option (Nat × List Char × Cursor)
  | 0, _, _, _ => none
  | fuel + 1, widest, breaks, c =>
    let spaces := (c.rest.takeWhile (· = ' ')).length
    let c := c.skip (if indent = 0 then spaces else min spaces (indent - c.column))
    let widest := max widest c.column
    if (indent = 0 || c.column < indent) && c.sees '\t' then none
    else if c.atBreak then scanBlockBreaks indent fuel widest (breaks ++ c.breakText) c.skipBreak
    else some (widest, breaks, c)

/-- The lines of a block text. `lead` is the line break before the line at hand and `breaks` those
after it; `blankBefore` tells that the last line started with a blank. -/
def scanBlockLines (literal : Bool) (indent : Nat) :
    Nat → List Char → List Char → List Char → Bool → Cursor →
      Option (List Char × List Char × List Char × Cursor)
  | 0, _, _, _, _, _ => none
  | fuel + 1, done, lead, breaks, blankBefore, c =>
    if c.column = indent && !c.atEnd then do
      let blankHere := c.atBlank
      let joint :=
        if !literal && lead = ['\n'] && !blankBefore && !blankHere then
          (if breaks = [] then [' '] else [])
        else lead
      let lineText := c.rest.takeWhile fun x => !isBreak x
      let e := c.skip lineText.length
      let (lead, e') := (e.breakText, e.skipBreak)
      let (_, breaks', e') ← scanBlockBreaks indent e'.fuel 0 [] e'
      scanBlockLines literal indent fuel (done ++ joint ++ breaks ++ lineText) lead breaks'
        blankHere e'
    else some (done, lead, breaks, c)

/-- A block text after its bar or angle. `outer` is the column of the block around it, if any. -/
def scanBlock (literal : Bool) (outer : Option Nat) (c : Cursor) : Option (List Char × Cursor) := do
  let (chomp, width, c) ← scanBlockHeader c
  let given := if width = 0 then 0 else outer.getD 0 + width
  let (widest, breaks, c) ← scanBlockBreaks given c.fuel 0 [] c
  let least :=
    match outer with
    | some n => n + 1
    | none => 1
  let indent := if given = 0 then max widest least else given
  let (done, lead, breaks, c) ← scanBlockLines literal indent c.fuel [] [] breaks false c
  some (done ++ (if chomp = .strip then [] else lead) ++ (if chomp = .keep then breaks else []), c)

end SiteLint.Yaml
