import SiteLint.Toml.Scalar
import SiteLint.Toml.Table

/-!
TOML values from text.

A document is a sequence of lines: headers, which choose the table that follows, and keys with
their values. Values in brackets and braces may span lines.
-/

namespace SiteLint.Toml

/-- A character of a key without marks. -/
def isKeyChar (c : Char) : Bool :=
  let n := c.toNat
  (0x30 ≤ n && n ≤ 0x39) || (0x41 ≤ n && n ≤ 0x5A) || (0x61 ≤ n && n ≤ 0x7A) || c = '_' || c = '-'

/-- One part of a key. -/
def scanKeyPart? (cs : List Char) : Option (String × List Char) :=
  match cs with
  | '"' :: _ | '\'' :: _ => (scanShort? cs).map fun (s, rest) => (String.ofList s, rest)
  | _ =>
    let word := cs.takeWhile isKeyChar
    if word.isEmpty then none else some (String.ofList word, cs.dropWhile isKeyChar)

/-- The parts of a dotted key, with the blanks around them. -/
def scanKey? : Nat → List Char → Option (List String × List Char)
  | 0, _ => none
  | fuel + 1, cs => do
    let (part, rest) ← scanKeyPart? (skipBlanks cs)
    match skipBlanks rest with
    | '.' :: rest =>
      let (parts, rest) ← scanKey? fuel rest
      some (part :: parts, rest)
    | rest => some ([part], rest)

/-- What follows a comment; without one, the text itself. -/
def afterComment? : List Char → Option (List Char)
  | '#' :: cs =>
    let body := cs.takeWhile fun c => c ≠ '\n'
    let body := if body.getLast? = some '\r' && (cs.drop body.length).head? = some '\n'
      then body.dropLast else body
    if body.any isControl then none else some (cs.drop body.length)
  | cs => some cs

/-- What follows blanks, comments and line ends. -/
def skipSpace? : Nat → List Char → Option (List Char)
  | 0, _ => none
  | fuel + 1, cs => do
    let rest ← afterComment? (skipBlanks cs)
    match afterLineEnd? rest with
    | some rest => skipSpace? fuel rest
    | none => some rest

/-- Values in brackets and braces may be nested this deep. -/
def depthLimit : Nat := 80

mutual

/-- A value. `fuel` bounds the steps, `depth` the brackets and braces that may still be opened. -/
def scanValue : Nat → Nat → List Char → Option (Toml × List Char)
  | 0, _, _ => none
  | fuel + 1, depth, cs =>
    match cs with
    | '"' :: _ | '\'' :: _ =>
      (scanText? cs).map fun (s, rest) => (text (String.ofList s), rest)
    | '[' :: rest =>
      if depth = 0 then none
      else (scanItems fuel (depth - 1) rest).map fun (items, rest) => (array items, rest)
    | '\x7b' :: rest =>
      if depth = 0 then none
      else (scanMembers fuel (depth - 1) [] rest).map fun (ms, rest) =>
        (table (finishMembers ms), rest)
    | _ => scanScalar? cs

/-- The items of an array, up to and with its closing bracket. -/
def scanItems : Nat → Nat → List Char → Option (List Toml × List Char)
  | 0, _, _ => none
  | fuel + 1, depth, cs => do
    match ← skipSpace? (cs.length + 1) cs with
    | ']' :: rest => some ([], rest)
    | cs => do
      let (v, rest) ← scanValue fuel depth cs
      match ← skipSpace? (rest.length + 1) rest with
      | ',' :: rest => do
        let (vs, rest) ← scanItems fuel depth rest
        some (v :: vs, rest)
      | ']' :: rest => some ([v], rest)
      | _ => none

/-- The members of a table in braces, up to and with its closing brace. -/
def scanMembers : Nat → Nat → Slots → List Char → Option (Slots × List Char)
  | 0, _, _, _ => none
  | fuel + 1, depth, ms, cs => do
    match ← skipSpace? (cs.length + 1) cs with
    | '\x7d' :: rest => some (ms, rest)
    | cs => do
      let (key, rest) ← scanKey? (cs.length + 1) cs
      let '=' :: rest := rest | none
      let (v, rest) ← scanValue fuel depth (skipBlanks rest)
      let ms ← Slots.assign v key ms
      match ← skipSpace? (rest.length + 1) rest with
      | ',' :: rest => scanMembers fuel depth ms rest
      | '\x7d' :: rest => some (ms, rest)
      | _ => none

end

/-- What follows the end of a line, with the blanks and the comment before it. -/
def endLine? (cs : List Char) : Option (List Char) := do
  match ← afterComment? (skipBlanks cs) with
  | [] => some []
  | rest => afterLineEnd? rest

/-- A document while it is read: its tables, and the path to the table that keys go to. -/
structure Document where
  slots : Slots
  current : List String

/-- The name a header ends with, and the names before it. -/
def splitHeader (key : List String) : List String × String :=
  (key.dropLast, key.getLast?.getD "")

/-- One line of a document, with what follows it. -/
def readLine? (d : Document) (cs : List Char) : Option (Document × List Char) :=
  match skipBlanks cs with
  | '[' :: '[' :: rest => do
    let (key, rest) ← scanKey? (rest.length + 1) rest
    let ']' :: ']' :: rest := rest | none
    let slots ← Slots.within (Slots.openElement (splitHeader key).2) (splitHeader key).1 d.slots
    some (⟨slots, key⟩, ← endLine? rest)
  | '[' :: rest => do
    let (key, rest) ← scanKey? (rest.length + 1) rest
    let ']' :: rest := rest | none
    let slots ← Slots.within (Slots.openTable (splitHeader key).2) (splitHeader key).1 d.slots
    some (⟨slots, key⟩, ← endLine? rest)
  | cs =>
    match endLine? cs with
    | some rest => some (d, rest)
    | none => do
      let (key, rest) ← scanKey? (cs.length + 1) cs
      let '=' :: rest := rest | none
      let (v, rest) ← scanValue (rest.length + 1) depthLimit (skipBlanks rest)
      let slots ← Slots.within (Slots.assign v key) d.current d.slots
      some (⟨slots, d.current⟩, ← endLine? rest)

/-- All lines of a document. -/
def readLines : Nat → Document → List Char → Option Document
  | _, d, [] => some d
  | 0, _, _ => none
  | fuel + 1, d, cs => do
    let (d, rest) ← readLine? d cs
    readLines fuel d rest

/-- The table that a document stands for. A byte order mark in front does not count. -/
def read? (cs : List Char) : Option Toml := do
  let cs := if cs.head? = some '\uFEFF' then cs.tail else cs
  let d ← readLines (cs.length + 1) ⟨[], []⟩ cs
  some (table (finishMembers d.slots))

end SiteLint.Toml
