import SiteLint.Yaml.Token

/-!
YAML nodes from tokens.

A stream of tokens may hold one document. A node may have a tag and an anchor; a reference stands
for the node that had the anchor last. Where a node is expected and the block or the brackets go on
without one, the empty node is meant.
-/

namespace SiteLint.Yaml

/-- The tokens still to be read, and the nodes that have an anchor, latest first. A node that is
not complete yet is kept as `endless`. -/
structure Stream where
  tokens : List Token
  named : List (String × Yaml)

namespace Stream

def peek (s : Stream) : Option Token := s.tokens.head?

def next (s : Stream) : Stream := { s with tokens := s.tokens.tail }

/-- The next token is one of these, or there is none. -/
def stopsAt (s : Stream) (marks : List Token) : Bool :=
  match s.peek with
  | none => true
  | some t => marks.contains t

/-- A node with an anchor begins. -/
def openName (s : Stream) (anchor : Option String) : Stream :=
  match anchor with
  | some a => { s with named := (a, endless) :: s.named }
  | none => s

/-- The node that began when `depth` nodes had anchors is complete. -/
def closeName (s : Stream) (anchor : Option String) (depth : Nat) (v : Yaml) : Stream :=
  match anchor with
  | some a => { s with named := s.named.set (s.named.length - 1 - depth) (a, v) }
  | none => s

end Stream

/-- The tag that a handle and what follows it stand for, under the handles that are declared. -/
def expandTag (handles : List (String × String)) (handle suffix : String) : Option String :=
  if handle = "" then some suffix
  else (handles.lookup handle).map (· ++ suffix)

/-- The anchor and the tag in front of a node, in either order, one of each at most. -/
def properties (handles : List (String × String)) (s : Stream) :
    Option (Option String × Option String × Stream) :=
  match s.tokens with
  | .anchor a :: .tag h t :: ts => do some (some a, some (← expandTag handles h t), { s with tokens := ts })
  | .tag h t :: .anchor a :: ts => do some (some a, some (← expandTag handles h t), { s with tokens := ts })
  | .anchor a :: ts => some (some a, none, { s with tokens := ts })
  | .tag h t :: ts => do some (none, some (← expandTag handles h t), { s with tokens := ts })
  | _ => some (none, none, s)

mutual

/-- A node. `block` allows blocks, and `bare` items that share the column of their key. -/
def node (handles : List (String × String)) (block bare : Bool) :
    Nat → Stream → Option (Yaml × Stream)
  | 0, _ => none
  | fuel + 1, s =>
    match s.peek with
    | some (.reference a) => do some (← s.named.lookup a, s.next)
    | _ => do
      let depth := s.named.length
      let (anchor, tag, s) ← properties handles s
      let s := s.openName anchor
      let (v, s) ← (
        match s.peek with
        | some (.scalar style text) =>
          some (scalar (if tag = some "!" then none else tag) style text, s.next)
        | some .openFlowSequence => do
          let (items, s) ← flowItems handles true fuel s.next
          some (sequence tag items, s)
        | some .openFlowMapping => do
          let (pairs, s) ← flowPairs handles true fuel s.next
          some (mapping tag pairs, s)
        | t =>
          if bare && t = some .item then do
            let (items, s) ← bareItems handles fuel s
            some (sequence tag items, s)
          else if block && t = some .openSequence then do
            let (items, s) ← blockItems handles fuel s.next
            some (sequence tag items, s)
          else if block && t = some .openMapping then do
            let (pairs, s) ← blockPairs handles fuel s.next
            some (mapping tag pairs, s)
          else if anchor.isSome || tag.isSome then some (scalar tag .plain "", s)
          else none)
      some (v, s.closeName anchor depth v)

/-- A node, or the empty node when one of the marks comes next. -/
def nodeOr (handles : List (String × String)) (block bare : Bool) (marks : List Token) :
    Nat → Stream → Option (Yaml × Stream)
  | 0, _ => none
  | fuel + 1, s => if s.stopsAt marks then some (empty, s) else node handles block bare fuel s

/-- The items of a block. -/
def blockItems (handles : List (String × String)) : Nat → Stream → Option (List Yaml × Stream)
  | 0, _ => none
  | fuel + 1, s =>
    match s.peek with
    | some .item => do
      let (v, s) ← nodeOr handles true false [.item, .closeBlock] fuel s.next
      let (vs, s) ← blockItems handles fuel s
      some (v :: vs, s)
    | some .closeBlock => some ([], s.next)
    | _ => none

/-- Items that share the column of their key. -/
def bareItems (handles : List (String × String)) : Nat → Stream → Option (List Yaml × Stream)
  | 0, _ => none
  | fuel + 1, s =>
    match s.peek with
    | some .item => do
      let (v, s) ← nodeOr handles true false [.item, .key, .value, .closeBlock] fuel s.next
      let (vs, s) ← bareItems handles fuel s
      some (v :: vs, s)
    | _ => some ([], s)

/-- The keys and values of a block. -/
def blockPairs (handles : List (String × String)) :
    Nat → Stream → Option (List (Yaml × Yaml) × Stream)
  | 0, _ => none
  | fuel + 1, s =>
    match s.peek with
    | some .key => do
      let (k, s) ← nodeOr handles true true [.key, .value, .closeBlock] fuel s.next
      let (v, s) ←
        (if s.peek = some .value then
          nodeOr handles true true [.key, .value, .closeBlock] fuel s.next
        else some (empty, s))
      let (ps, s) ← blockPairs handles fuel s
      some ((k, v) :: ps, s)
    | some .closeBlock => some ([], s.next)
    | _ => none

/-- Items between brackets, after the opening bracket or after an item. A key with its value may
stand for a mapping of one pair. -/
def flowItems (handles : List (String × String)) (first : Bool) :
    Nat → Stream → Option (List Yaml × Stream)
  | 0, _ => none
  | fuel + 1, s =>
    if s.peek = some .closeFlowSequence then some ([], s.next)
    else if !first && s.peek ≠ some .separator then none
    else
      let s := if first then s else s.next
      match s.peek with
      | some .closeFlowSequence => some ([], s.next)
      | some .key => do
        let s := s.next
        let (k, s) ←
          (if s.stopsAt [.value, .separator, .closeFlowSequence] then some (empty, s.next)
           else node handles false false fuel s)
        let (v, s) ←
          (if s.peek = some .value then
            nodeOr handles false false [.separator, .closeFlowSequence] fuel s.next
          else some (empty, s))
        let (vs, s) ← flowItems handles false fuel s
        some (mapping none [(k, v)] :: vs, s)
      | _ => do
        let (v, s) ← node handles false false fuel s
        let (vs, s) ← flowItems handles false fuel s
        some (v :: vs, s)

/-- Keys and values between braces, after the opening brace or after a value. -/
def flowPairs (handles : List (String × String)) (first : Bool) :
    Nat → Stream → Option (List (Yaml × Yaml) × Stream)
  | 0, _ => none
  | fuel + 1, s =>
    if s.peek = some .closeFlowMapping then some ([], s.next)
    else if !first && s.peek ≠ some .separator then none
    else
      let s := if first then s else s.next
      match s.peek with
      | some .closeFlowMapping => some ([], s.next)
      | some .key => do
        let (k, s) ← nodeOr handles false false [.value, .separator, .closeFlowMapping] fuel s.next
        let (v, s) ←
          (if s.peek = some .value then
            nodeOr handles false false [.separator, .closeFlowMapping] fuel s.next
          else some (empty, s))
        let (ps, s) ← flowPairs handles false fuel s
        some ((k, v) :: ps, s)
      | _ => do
        let (k, s) ← node handles false false fuel s
        let (ps, s) ← flowPairs handles false fuel s
        some ((k, empty) :: ps, s)

end

/-- The handles for tags that every document knows. -/
def defaultHandles : List (String × String) := [("!", "!"), ("!!", "tag:yaml.org,2002:")]

/-- The directives in front of a document: at most one version, which has to be 1.1 or 1.2, and
handles for tags, each declared once. -/
def directives : Bool → List (String × String) → List Token → Option (List (String × String) × List Token)
  | versioned, handles, .version major minor :: ts =>
    if versioned || major ≠ 1 || (minor ≠ 1 && minor ≠ 2) then none
    else directives true handles ts
  | versioned, handles, .tagPrefix h p :: ts =>
    if (handles.lookup h).isSome then none else directives versioned (handles ++ [(h, p)]) ts
  | _, handles, ts => some (handles ++ defaultHandles, ts)

/-- The token can only belong to what is around documents. -/
def isOutside : Token → Bool
  | .version _ _ | .tagPrefix _ _ | .documentStart | .documentEnd => true
  | _ => false

/-- The node of a document, after its start. An explicit start may have no node behind it. -/
def content (handles : List (String × String)) (explicit : Bool) (ts : List Token) :
    Option (Yaml × List Token) :=
  if explicit && ts.head?.all isOutside then some (empty, ts)
  else (node handles true false (3 * ts.length + 3) ⟨ts, []⟩).map fun (v, s) => (v, s.tokens)

/-- What may follow the only document: marks of its end. -/
def endsStream (ts : List Token) : Bool := ts.all (· = .documentEnd)

/-- The node of a text with at most one document; a text without a document counts as the empty
node. -/
def read? (cs : List Char) : Option Yaml := do
  match ← tokens? cs with
  | [] => some empty
  | t :: ts =>
    let startsOutside : Bool := isOutside t && t ≠ .documentEnd
    let (handles, rest) ← directives false [] (t :: ts)
    let rest ← (
      if startsOutside then
        match rest with
        | .documentStart :: rest => some rest
        | _ => none
      else some rest)
    let (v, rest) ← content handles startsOutside rest
    if endsStream rest then some v else none

end SiteLint.Yaml
