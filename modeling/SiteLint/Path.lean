import SiteLint.Text.Line
import SiteLint.Text.Utf8

/-!
Paths as they are written, and what can be read off that alone.

The system knows paths and names as bytes, which need not be the UTF-8 form of a text. A path keeps
the bytes it was written with. Two paths can stand for the same place: doubled slashes, inner dots
and a final slash do not count. `Path.same` compares what counts. Where a path is shown, or handed
on as an argument, it is by its text, in which ill-formed bytes have become U+FFFD.
-/

namespace SiteLint

/-- The byte that stands between the names of a path. -/
def slash : UInt8 := 0x2F

/-- The byte of a dot. -/
def dot : UInt8 := 0x2E

/-- A file name: any bytes without a slash. -/
abbrev Name := List UInt8

namespace Name

/-- A text names what is stored under its bytes. -/
instance : Coe (List Char) Name := ⟨Text.Utf8.encode⟩

/-- Names are compared byte by byte; a name comes before its continuations. -/
def atMost (n m : Name) : Bool := n ≤ m

end Name

/-- A path as it was written. -/
structure Path where
  bytes : List UInt8
  deriving DecidableEq, Repr, Inhabited

/-- What a path is made of, read from the left. -/
inductive Component
  /-- The slash that an absolute path starts with. -/
  | root
  /-- The dot that a relative path starts with; later dots do not count. -/
  | here
  /-- Two dots: the directory above. -/
  | up
  /-- An ordinary name. -/
  | name (n : Name)
  deriving DecidableEq, Repr

namespace Component

/-- The bytes of a component. -/
def bytes : Component → List UInt8
  | root => [slash]
  | here => [dot]
  | up => [dot, dot]
  | name n => n

/-- The component that a piece between slashes stands for; empty pieces and dots stand for none. -/
def ofPiece? (piece : List UInt8) : Option Component :=
  if piece = [] ∨ piece = [dot] then none
  else if piece = [dot, dot] then some up
  else some (name piece)

end Component

namespace Path

/-- The path that a text writes. -/
def ofString (s : String) : Path := ⟨Text.Utf8.encode s.toList⟩

/-- The text of a path, with U+FFFD for what is no text. -/
def toString (p : Path) : String := String.ofList (Text.Utf8.lenientText p.bytes)

instance : ToString Path := ⟨toString⟩

/-- Only a path with fewer bytes than this can be looked up. -/
def limit : Nat := 4096

/-- The path starts at the root. -/
def isAbsolute (p : Path) : Bool := p.bytes.head? = some slash

/-- What stands between the slashes. -/
def pieces (p : Path) : List (List UInt8) := Text.splitAt slash p.bytes

/-- The components that count. -/
def components (p : Path) : List Component :=
  (if p.isAbsolute then [Component.root]
   else if p.pieces.head? = some [dot] then [Component.here]
   else []) ++ p.pieces.filterMap Component.ofPiece?

/-- The two texts stand for the same path. -/
def same (p q : Path) : Bool := p.components = q.components

/-- The path `q` seen from `p`: an absolute `q` stays as it is, any other is put after `p`. -/
def join (p q : Path) : Path :=
  if q.isAbsolute then q
  else if p.bytes = [] ∨ p.bytes.getLast? = some slash then ⟨p.bytes ++ q.bytes⟩
  else ⟨p.bytes ++ slash :: q.bytes⟩

/-- The entry `n` of the directory `p`. -/
def child (p : Path) (n : Name) : Path := p.join ⟨n⟩

/-- Pieces without the empty ones and dots at the end. -/
def dropIdleEnd (ps : List (List UInt8)) : List (List UInt8) :=
  (ps.reverse.dropWhile fun p => p = [] || p = [dot]).reverse

/-- The path without its last component; the root and the empty path have none. -/
def parent? (p : Path) : Option Path :=
  let cut (ps : List (List UInt8)) := dropIdleEnd (dropIdleEnd ps).dropLast
  match p.pieces with
  | [] => none
  | first :: rest =>
    if p.isAbsolute then
      if dropIdleEnd rest = [] then none else some ⟨slash :: Text.glue slash (cut rest)⟩
    else if first = [dot] then
      if dropIdleEnd rest = [] then some ⟨[]⟩ else some ⟨Text.glue slash (first :: cut rest)⟩
    else
      if dropIdleEnd (first :: rest) = [] then none else some ⟨Text.glue slash (cut (first :: rest))⟩

/-- The last component, when it is an ordinary name. -/
def fileName? (p : Path) : Option Name :=
  match p.components.getLast? with
  | some (.name n) => some n
  | _ => none

/-- What follows the last dot of a name; a name without a dot, or with its only dot in front, has
no extension. -/
def nameExtension? (n : Name) : Option (List UInt8) :=
  let r := n.reverse
  match r.dropWhile (· ≠ dot) with
  | [] => none
  | [_] => none
  | _ :: _ => some (r.takeWhile (· ≠ dot)).reverse

/-- The extension of the last component. -/
def extension? (p : Path) : Option (List UInt8) := p.fileName?.bind nameExtension?

/-- The components of `base` come first in `p`. -/
def startsWith (p base : Path) : Bool := base.components.isPrefixOf p.components

/-- A path from a list of components, each put after the ones before. -/
def ofComponents (cs : List Component) : Path :=
  cs.foldl (fun p c => p.join ⟨c.bytes⟩) ⟨[]⟩

/-- The steps from `base` to `path`, both given by components. Nothing when a step up would have
to be undone. The flag says that the two have not parted yet. -/
def stepsFrom : Bool → List Component → List Component → Option (List Component)
  | _, [], [] => some []
  | _, p, [] => some p
  | _, [], _ :: base => (stepsFrom false [] base).map (Component.up :: ·)
  | together, a :: path, b :: base =>
    if together ∧ a = b then stepsFrom true path base
    else if b = .here then (stepsFrom false path base).map (a :: ·)
    else if b = .up then none
    else some (Component.up :: base.map (fun _ => Component.up) ++ a :: path)

/-- Components without a leading dot. -/
def dropHere : List Component → List Component
  | Component.here :: cs => cs
  | cs => cs

/-- The path that leads from `base` to `p`, when there is one. -/
def relativeTo? (p base : Path) : Option Path :=
  if p.isAbsolute = base.isAbsolute then
    (stepsFrom true (dropHere p.components) (dropHere base.components)).map ofComponents
  else if p.isAbsolute then some p
  else none

/-- The path as shown to a reader who stands in `wd`: absolute paths are shown from there, unless
nothing would be left to show. -/
def shownFrom (p wd : Path) : Path :=
  if p.isAbsolute then
    match p.relativeTo? wd with
    | some r => if r.bytes = [] then p else r
    | none => p
  else p

end Path

end SiteLint
