import SiteLint.Yaml.Scalar

/-!
The tokens of a YAML text.

Indentation becomes tokens that open and close blocks. A key without a mark of its own is known
only at the colon behind it, so the place where it may start is remembered, and the tokens for the
key are put in there later. Such a key stays on one line and is at most 1024 characters long.
-/

namespace SiteLint.Yaml

inductive Token
  | version (major minor : Nat)
  | tagPrefix (handle text : String)
  | documentStart
  | documentEnd
  | openSequence
  | openMapping
  | closeBlock
  | openFlowSequence
  | closeFlowSequence
  | openFlowMapping
  | closeFlowMapping
  | item
  | separator
  | key
  | value
  | reference (name : String)
  | anchor (name : String)
  | tag (handle suffix : String)
  | scalar (style : Style) (text : String)
  deriving DecidableEq, Repr

/-- A place where a key without a mark may have started. -/
structure PendingKey where
  /-- The number of tokens before it. -/
  tokens : Nat
  /-- What stands here cannot be anything but a key. -/
  required : Bool
  index : Nat
  line : Nat
  column : Nat

/-- The state of the reading: the place, the tokens so far, the open blocks and the keys that may
have started. -/
structure Scan where
  at_ : Cursor
  tokens : Array Token
  /-- The columns of the open blocks, innermost first. -/
  blocks : List Nat
  /-- A key without a mark may start here. -/
  keyAllowed : Bool
  /-- The key that may have started in the block context. -/
  blockKey : Option PendingKey
  /-- The same for each open bracket or brace, innermost first. -/
  flowKeys : List (Option PendingKey)

namespace Scan

def start (cs : List Char) : Scan := ⟨Cursor.start cs, #[], [], true, none, []⟩

/-- Inside brackets or braces. -/
def inFlow (s : Scan) : Bool := !s.flowKeys.isEmpty

def column (s : Scan) : Nat := s.at_.column

/-- The column of the innermost block. -/
def indent (s : Scan) : Option Nat := s.blocks.head?

def emit (t : Token) (s : Scan) : Scan := { s with tokens := s.tokens.push t }

def skip (n : Nat) (s : Scan) : Scan := { s with at_ := s.at_.skip n }

def allowKey (b : Bool) (s : Scan) : Scan := { s with keyAllowed := b }

/-- The key that may have started on the innermost level. -/
def pending (s : Scan) : Option PendingKey :=
  match s.flowKeys with
  | k :: _ => k
  | [] => s.blockKey

def setPending (k : Option PendingKey) (s : Scan) : Scan :=
  match s.flowKeys with
  | _ :: ks => { s with flowKeys := k :: ks }
  | [] => { s with blockKey := k }

/-- Gives up the key that may have started; one that is required cannot be given up. -/
def dropPending (s : Scan) : Option Scan :=
  match s.pending with
  | some k => if k.required then none else some (s.setPending none)
  | none => some s

/-- A key may start here. -/
def savePending (s : Scan) : Option Scan :=
  if s.keyAllowed then do
    let s ← s.dropPending
    some (s.setPending (some
      ⟨s.tokens.size, !s.inFlow && s.indent = some s.column, s.at_.index, s.at_.line, s.column⟩))
  else some s

/-- A key that has become too long or went over the end of its line. -/
def isStale (s : Scan) (k : PendingKey) : Bool :=
  k.line < s.at_.line || k.index + 1024 < s.at_.index

/-- Gives up the keys that cannot be completed any more. -/
def dropStale (s : Scan) : Option Scan :=
  let old := (s.blockKey :: s.flowKeys).filterMap fun k => k.filter s.isStale
  if old.any (·.required) then none
  else
    let renew (k : Option PendingKey) : Option PendingKey := k.filter fun k => !s.isStale k
    some { s with blockKey := renew s.blockKey, flowKeys := s.flowKeys.map renew }

/-- Opens a block at a column, with its token at the given place, unless one is open there. -/
def openBlock (column place : Nat) (t : Token) (s : Scan) : Scan :=
  if s.inFlow || s.indent.any (column ≤ ·) then s
  else
    { s with
      blocks := column :: s.blocks
      tokens := s.tokens.insertIdxIfInBounds place t }

/-- Closes the blocks to the right of a column. -/
def closeBlocksTo (least : Option Nat) (s : Scan) : Scan :=
  if s.inFlow then s
  else
    let closed := s.blocks.takeWhile fun b => least.all (· < b)
    { s with
      blocks := s.blocks.drop closed.length
      tokens := s.tokens ++ (closed.map fun _ => Token.closeBlock).toArray }

/-- Past blanks, comments and line breaks to the next token. -/
def toNextToken : Nat → Scan → Scan
  | 0, s => s
  | fuel + 1, s =>
    let c := s.at_
    let c := if c.column = 0 && c.sees '\uFEFF' then c.skip 1 else c
    let c := c.skipWhile fun x => x = ' ' || ((s.inFlow || !s.keyAllowed) && x = '\t')
    let c := c.skipComment
    if c.atBreak then
      toNextToken fuel { s with at_ := c.skipBreak, keyAllowed := s.keyAllowed || !s.inFlow }
    else { s with at_ := c }

/-- An opening bracket or brace. -/
def openFlow (t : Token) (s : Scan) : Option Scan := do
  let s ← s.savePending
  some (({ s with flowKeys := none :: s.flowKeys, keyAllowed := true }.skip 1).emit t)

/-- A closing bracket or brace. -/
def closeFlow (t : Token) (s : Scan) : Option Scan := do
  let s ← s.dropPending
  some (({ s with flowKeys := s.flowKeys.tail, keyAllowed := false }.skip 1).emit t)

/-- A comma inside brackets or braces. -/
def separate (s : Scan) : Option Scan := do
  let s ← s.dropPending
  some (((s.allowKey true).skip 1).emit .separator)

/-- A hyphen in front of an item. -/
def beginItem (s : Scan) : Option Scan := do
  if !s.inFlow && !s.keyAllowed then none
  let s := s.openBlock s.column s.tokens.size .openSequence
  let s ← s.dropPending
  some (((s.allowKey true).skip 1).emit .item)

/-- A question mark in front of a key. -/
def beginKey (s : Scan) : Option Scan := do
  if !s.inFlow && !s.keyAllowed then none
  let s := s.openBlock s.column s.tokens.size .openMapping
  let s ← s.dropPending
  some (((s.allowKey (!s.inFlow)).skip 1).emit .key)

/-- A colon in front of a value. -/
def beginValue (s : Scan) : Option Scan :=
  match s.pending with
  | some k =>
    let s := { s with tokens := s.tokens.insertIdxIfInBounds k.tokens .key }
    let s := s.openBlock k.column k.tokens .openMapping
    some ((((s.setPending none).allowKey false).skip 1).emit .value)
  | none =>
    if !s.inFlow && !s.keyAllowed then none
    else
      let s := s.openBlock s.column s.tokens.size .openMapping
      some (((s.allowKey (!s.inFlow)).skip 1).emit .value)

/-- A name after an ampersand or asterisk. -/
def readName (make : String → Token) (s : Scan) : Option Scan := do
  let s ← s.savePending
  let c := s.at_.skip 1
  let word := c.rest.takeWhile isWord
  let c := c.skip word.length
  let ends := c.gapAt 0 || c.peek.any fun x => "?:,]%@".toList.contains x || x = '\x7d' || x = '\x60'
  if word = [] || !ends then none
  some (({ s with at_ := c }.allowKey false).emit (make (String.ofList word)))

/-- A character of a tag; commas and brackets are allowed only where `wide` is set. -/
def isTagChar (wide : Bool) (x : Char) : Bool :=
  isWord x || ";/?:@&=+$.!~*'()".toList.contains x || (wide && (x = ',' || x = '[' || x = ']'))

/-- The bytes that percent signs with two digits write, as a text. -/
def percentText? (bytes : List UInt8) : Option (List Char) :=
  (String.fromUTF8? (ByteArray.mk bytes.toArray)).map String.toList

/-- The characters of a tag and the number of characters they take. Bytes may be written with a
percent sign. -/
def scanTagText (wide : Bool) : Nat → List Char → Option (List Char × Nat)
  | 0, _ => none
  | fuel + 1, cs =>
    match cs with
    | '%' :: _ => do
      let escapes (cs : List Char) : Option UInt8 :=
        match cs with
        | ['%', a, b] => (Text.readDigits 16 [a, b]).map (·.toUInt8)
        | _ => none
      let lead ← escapes (cs.take 3)
      let count := if lead < 0x80 then 1 else if lead < 0xE0 then 2 else if lead < 0xF0 then 3 else 4
      let bytes ← (List.range count).mapM fun i => escapes ((cs.drop (3 * i)).take 3)
      let decoded ← percentText? bytes
      let (text, n) ← scanTagText wide fuel (cs.drop (3 * count))
      some (decoded ++ text, n + 3 * count)
    | x :: xs =>
      if isTagChar wide x then (scanTagText wide fuel xs).map fun (text, n) => (x :: text, n + 1)
      else some ([], 0)
    | [] => some ([], 0)

/-- An exclamation mark, a word and perhaps another exclamation mark. -/
def tagHandle (cs : List Char) : List Char :=
  match cs with
  | '!' :: cs =>
    let word := cs.takeWhile isWord
    '!' :: (word ++ if (cs.drop word.length).head? = some '!' then ['!'] else [])
  | _ => []

/-- A tag: in angles, behind a handle, or behind a single exclamation mark. -/
def readTag (s : Scan) : Option Scan := do
  let s ← s.savePending
  let c := s.at_
  let (handle, suffix, c) ←
    (if c.peekAt 1 = some '<' then do
      let c := c.skip 2
      let (text, n) ← scanTagText true c.fuel c.rest
      let c := c.skip n
      if text = [] || !c.sees '>' then none
      some ([], text, c.skip 1)
    else do
      let handle := tagHandle c.rest
      let c := c.skip handle.length
      let (text, n) ← scanTagText false c.fuel c.rest
      let c := c.skip n
      if handle.length > 1 && handle.getLast? = some '!' then
        if text = [] then none else some (handle, text, c)
      else
        let suffix := handle.tail ++ text
        if suffix = [] then some ([], ['!'], c) else some (['!'], suffix, c))
  if !(c.gapAt 0 || (s.inFlow && c.sees ',')) then none
  some (({ s with at_ := c }.allowKey false).emit (.tag (String.ofList handle) (String.ofList suffix)))

/-- A block text after its bar or angle. -/
def readBlockText (literal : Bool) (s : Scan) : Option Scan := do
  let s ← s.dropPending
  let (text, c) ← scanBlock literal s.indent (s.at_.skip 1)
  some (({ s with at_ := c }.allowKey true).emit
    (.scalar (if literal then .literal else .folded) (String.ofList text)))

def readQuoted (single : Bool) (s : Scan) : Option Scan := do
  let s ← s.savePending
  let c := s.at_.skip 1
  let (text, c) ← scanQuoted single c.fuel [] c
  some (({ s with at_ := c }.allowKey false).emit (.scalar .quoted (String.ofList text)))

def readPlain (s : Scan) : Option Scan := do
  let s ← s.savePending
  let least := match s.indent with
    | some n => n + 1
    | none => 0
  let (text, broken, c) ← scanPlain s.inFlow least s.at_.fuel [] Gap.none s.at_
  some (({ s with at_ := c }.allowKey broken).emit (.scalar .plain (String.ofList text)))

/-- The digits of a version number. -/
def readVersionPart (c : Cursor) : Option (Nat × Cursor) := do
  let ds := c.rest.takeWhile fun x => (Text.digitValue? 10 x).isSome
  if ds.length > 9 then none
  some (← Text.readDigits 10 ds, c.skip ds.length)

/-- A line that starts with a percent sign: the version, or a handle for tags. -/
def readDirective (s : Scan) : Option Scan := do
  let s ← (s.closeBlocksTo none).dropPending
  let c := s.at_.skip 1
  let word := c.rest.takeWhile isWord
  let c := c.skip word.length
  if word = [] || !c.gapAt 0 then none
  let (t, c) ←
    (if word = "YAML".toList then do
      let (major, c) ← readVersionPart (c.skipWhile isBlank)
      if !c.sees '.' then none
      let (minor, c) ← readVersionPart (c.skip 1)
      some (Token.version major minor, c)
    else if word = "TAG".toList then do
      let c := c.skipWhile isBlank
      let handle := tagHandle c.rest
      if handle = [] || (handle.length > 1 && handle.getLast? ≠ some '!') then none
      let c := c.skip handle.length
      if !c.atBlank then none
      let c := c.skipWhile isBlank
      let (text, n) ← scanTagText true c.fuel c.rest
      let c := c.skip n
      if text = [] || !c.gapAt 0 then none
      some (Token.tagPrefix (String.ofList handle) (String.ofList text), c)
    else none)
  let c := (c.skipWhile isBlank).skipComment
  if !c.atLineEnd then none
  some (({ s with at_ := if c.atBreak then c.skipBreak else c }.allowKey false).emit t)

/-- The mark of the start or end of a document. -/
def readDocumentMark (t : Token) (s : Scan) : Option Scan := do
  let s ← (s.closeBlocksTo none).dropPending
  some (((s.allowKey false).skip 3).emit t)

/-- A character that cannot start a plain text on its own. -/
def isIndicator (x : Char) : Bool :=
  "-?:,[]#&*!|>'\"%@".toList.contains x || x = '\x7b' || x = '\x7d' || x = '\x60'

/-- A plain text can start here. -/
def startsPlain (s : Scan) : Bool :=
  match s.at_.peek with
  | none => false
  | some x =>
    (!isBlank x && !isBreak x && !isIndicator x) ||
      (x = '-' && !(s.at_.peekAt 1).any isBlank) ||
      (!s.inFlow && (x = '?' || x = ':') && !s.at_.gapAt 1)

/-- Reads one token, and what has to stand before it. The place is at no blank. -/
def readToken (s : Scan) : Option Scan :=
  let c := s.at_
  match c.peek with
  | none => some s
  | some x =>
    if c.column = 0 && x = '%' then s.readDirective
    else if c.atDocumentMark then
      s.readDocumentMark (if x = '-' then .documentStart else .documentEnd)
    else if x = '[' then s.openFlow .openFlowSequence
    else if x = '\x7b' then s.openFlow .openFlowMapping
    else if x = ']' then s.closeFlow .closeFlowSequence
    else if x = '\x7d' then s.closeFlow .closeFlowMapping
    else if x = ',' then s.separate
    else if x = '-' && c.gapAt 1 then s.beginItem
    else if x = '?' && (s.inFlow || c.gapAt 1) then s.beginKey
    else if x = ':' && (s.inFlow || c.gapAt 1) then s.beginValue
    else if x = '*' then s.readName .reference
    else if x = '&' then s.readName .anchor
    else if x = '!' then s.readTag
    else if x = '|' && !s.inFlow then s.readBlockText true
    else if x = '>' && !s.inFlow then s.readBlockText false
    else if x = '\'' then s.readQuoted true
    else if x = '"' then s.readQuoted false
    else if s.startsPlain then s.readPlain
    else none

/-- All tokens from here on. -/
def readAll : Nat → Scan → Option (Array Token)
  | 0, _ => none
  | fuel + 1, s => do
    let s := s.toNextToken s.at_.fuel
    let s ← s.dropStale
    if s.at_.atEnd then
      let s ← (s.closeBlocksTo none).dropPending
      some s.tokens
    else
      let s ← (s.closeBlocksTo (some s.column)).readToken
      readAll fuel s

end Scan

/-- The tokens of a whole text. A byte order mark in front does not count. -/
def tokens? (cs : List Char) : Option (List Token) :=
  let cs := if cs.head? = some '\uFEFF' then cs.tail else cs
  if cs.all isAllowed then
    (Scan.readAll (cs.length + 1) (Scan.start cs)).map Array.toList
  else none

end SiteLint.Yaml
