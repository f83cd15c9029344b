import SiteLint.Glob
import SiteLint.Host

/-!
The paths of a machine that match a list of component patterns.

A pattern that stands for itself is looked up by name; any other one is held against the names of
the directory, in their order. Dot and dot-dot are no names of a directory: a pattern meets them
only when it starts with a dot. Links to directories are entered. Patterns are texts: a name that is
no text matches none, though it can be passed on the way to any depth.
-/

namespace SiteLint.Glob

/-- The name is a text that matches the pattern. -/
def Pattern.acceptsName (n : Name) (p : Pattern) : Bool :=
  (Text.Utf8.text? n).any fun cs => p.accepts cs

/-- The path of the entry `n` of `dir`; below the working directory a leading dot is not written. -/
def under (dir : Path) (n : Name) : Path :=
  if dir.bytes = [dot] then ⟨n⟩ else dir.child n

/-- Everything beneath a directory, each directory before its content, down to a given depth. -/
def descendants (host : Host) : Nat → Path → List Path
  | 0, _ => []
  | depth + 1, dir =>
    (host.listing dir).flatMap fun e =>
      let q := under dir e.name
      q :: if host.isDirectory q then descendants host depth q else []

/-- The name a path was reached by. -/
def lastName (p : Path) : Name := p.fileName?.getD []

/-- One of the names that lead to the directory itself or to the one above. -/
def isDots (n : Name) : Bool := n = [dot] || n = [dot, dot]

/-- The entries of a directory that a pattern with wildcards meets, dot-dot and dot first. -/
def meets (host : Host) (p : Pattern) (dir : Path) : List Path :=
  let dots :=
    match p with
    | .tokens (Token.char '.' :: _) => [[dot, dot], [dot]].filter p.acceptsName
    | _ => []
  dots.map (fun n => dir.child n) ++
    ((host.listing dir).filter fun e => p.acceptsName e.name).map fun e => under dir e.name

/-- The paths below `dir` that match the patterns. With `onlyDirectories`, just those that lead to
a directory. -/
def search (host : Host) (onlyDirectories : Bool) : List Pattern → Path → List Path
  | [], p => if onlyDirectories && !host.isDirectory p then [] else [p]
  | [Pattern.anyDepth], dir =>
    (descendants host Path.limit dir).filter fun q => host.isDirectory q
  | Pattern.anyDepth :: p :: ps, dir =>
    ((descendants host Path.limit dir).filter fun q => p.acceptsName (lastName q)).flatMap fun q =>
      search host onlyDirectories ps q
  | p@(Pattern.tokens _) :: ps, dir =>
    match p.literal? with
    | some cs =>
      let n := Text.Utf8.encode cs
      let next := under dir n
      if (if isDots n then host.isDirectory dir else (host.entry next false).isOk) then
        search host onlyDirectories ps next
      else []
    | none => (meets host p dir).flatMap fun q => search host onlyDirectories ps q

/-- Patterns with each run of patterns for any depth made one. -/
def mergeDepths : List Pattern → List Pattern
  | Pattern.anyDepth :: Pattern.anyDepth :: ps => mergeDepths (Pattern.anyDepth :: ps)
  | p :: ps => p :: mergeDepths ps
  | [] => []

/-- The pieces of a text that ends in at most one slash more than it has pieces. -/
def terminatedPieces (cs : List Char) : List (List Char) :=
  let ps := Text.splitAt '/' cs
  if ps.getLast? = some [] then ps.dropLast else ps

/-- The paths beneath `root` that match the text of a pattern, or nothing when the text is no
pattern. Every character in the text of `root` stands for itself. -/
def pathsMatching? (host : Host) (root : Path) (entry : List Char) : Option (List Path) := do
  let base := (root.toString.toList.reverse.dropWhile (· = '/')).reverse
  let patterns ← (terminatedPieces entry).mapM compile?
  let onlyDirectories := decide (entry.getLast? = some '/')
  if base.head? = some '/' then
    some (search host onlyDirectories
      (mergeDepths ((Text.splitAt '/' base.tail).map literal ++ patterns)) ⟨[slash]⟩)
  else if base = [] then
    some (search host onlyDirectories (mergeDepths patterns) ⟨[slash]⟩)
  else
    some (search host onlyDirectories
      (mergeDepths ((Text.splitAt '/' base).map literal ++ patterns)) ⟨[dot]⟩)

end SiteLint.Glob
