import SiteLint.IoError
import SiteLint.Text.Utf8
import SiteLint.Tree.Walk

/-!
The machine a run sees: its files, the working directory and the environment.

A path is looked up name by name from the top directory or from the working directory. A link in
the middle is always followed, a link at the end only on request; at most forty links are
followed for one path. Two dots lead out of the directory that was really reached.
-/

namespace SiteLint

/-- What a run can see of the machine it is on. -/
structure Host where
  /-- The top directory. -/
  tree : Entry
  /-- The location of the working directory. -/
  workingDirectory : List Name
  /-- The directory that the environment names as the plugin's. -/
  pluginHome : Option Path
  /-- The environment asks for output without colours. -/
  noColor : Bool
  /-- The directory that holds the running program. -/
  programDirectory : Path

namespace Path

/-- The names to look up one after the other. A final slash asks for a directory, as a final dot
does. -/
def steps (p : Path) : List Name :=
  let ns := p.pieces.filter (· ≠ [])
  if ns ≠ [] ∧ p.bytes.getLast? = some slash then ns ++ [[dot]] else ns

/-- The absolute path of a location. -/
def ofLocation (location : List Name) : Path := ⟨slash :: Text.glue slash location⟩

end Path

namespace Host

/-- How many links may be followed while one path is looked up. -/
def linkLimit : Nat := 40

/-- The longest name a directory can hold, in bytes. -/
def nameLimit : Nat := 255

/-- Looks up names one after the other, from the location `here`. `links` more links may be
followed; a link at the very end is followed when `through` is set. -/
def follow (tree : Entry) (through : Bool) :
    Nat → List Name → List Name → Except IoError (List Name)
  | _, here, [] => .ok here
  | links, here, n :: rest =>
    match tree.at? here with
    | some (.directory _ es) =>
      if n = [dot] then follow tree through links here rest
      else if n = [dot, dot] then follow tree through links here.dropLast rest
      else if nameLimit < n.length then .error .nameTooLong
      else
        match Entry.find? n es with
        | none => .error .notFound
        | some (.link _ target) =>
          if rest = [] ∧ ¬ through then .ok (here ++ [n])
          else
            match links with
            | 0 => .error .tooManyLinks
            | links' + 1 =>
              follow tree through links' (if target.isAbsolute then [] else here)
                (target.steps ++ rest)
        | some _ => follow tree through links (here ++ [n]) rest
    | some _ => .error .notDirectory
    | none => .error .notFound
  termination_by links _ todo => (links, todo.length)

/-- The location a path leads to. -/
def locate (host : Host) (p : Path) (through : Bool) : Except IoError (List Name) :=
  if 0 ∈ p.bytes then .error .nulInPath
  else if p.bytes = [] then .error .notFound
  else if Path.limit ≤ p.bytes.length then .error .nameTooLong
  else follow host.tree through linkLimit
    (if p.isAbsolute then [] else host.workingDirectory) p.steps

/-- The entry a path leads to, seen through links or not. -/
def entry (host : Host) (p : Path) (through : Bool) : Except IoError Entry := do
  match host.tree.at? (← host.locate p through) with
  | some e => .ok e
  | none => .error .notFound

/-- Something is there, links followed. -/
def pathExists (host : Host) (p : Path) : Bool := (host.entry p true).isOk

/-- A regular file is there, links followed. -/
def isFile (host : Host) (p : Path) : Bool :=
  match host.entry p true with
  | .ok e => e.isFile
  | .error _ => false

/-- A directory is there, links followed. -/
def isDirectory (host : Host) (p : Path) : Bool :=
  match host.entry p true with
  | .ok e => e.isDirectory
  | .error _ => false

/-- The absolute path without links or dots. -/
def canonical (host : Host) (p : Path) : Except IoError Path :=
  (host.locate p true).map Path.ofLocation

/-- The working directory as a path. -/
def workingPath (host : Host) : Path := Path.ofLocation host.workingDirectory

/-- The text of a file. -/
def readText (host : Host) (p : Path) : Except IoError String := do
  match ← host.entry p true with
  | .file _ bytes =>
    match Text.Utf8.text? bytes with
    | some cs => .ok (String.ofList cs)
    | none => .error .invalidUtf8
  | _ => .error .isDirectory

/-- The names and entries of a directory, in the order of the names. -/
def listing (host : Host) (dir : Path) : List Entry :=
  match host.entry dir true with
  | .ok e => e.entries.mergeSort fun a b => Name.atMost a.name b.name
  | .error _ => []

/-- The regular files a path leads to: itself, or what a walk through a directory finds. A link is
followed here, at the start, when it leads to a directory, and nowhere below. -/
def filesBeneath (host : Host) (p : Path) : List Path :=
  match host.entry p false with
  | .ok (.file _ _) => [p]
  | .ok (.directory _ es) => Entry.inNameOrder (Entry.filesAmong p es)
  | .ok (.link _ _) =>
    match host.entry p true with
    | .ok (.directory _ es) => Entry.inNameOrder (Entry.filesAmong p es)
    | _ => []
  | .error _ => []

end Host

end SiteLint
