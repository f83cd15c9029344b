import SiteLint.Host

/-!
Setting up the files of a machine.

Directories on the way are made when they are missing. Writing to a link writes to the file that it
leads to. Removing a link leaves alone what it leads to.
-/

namespace SiteLint.Host

/-- Goes down from a location, making directories where nothing is. -/
def descend (tree : Entry) : List Name → List Name → Except IoError (Entry × List Name)
  | here, [] => .ok (tree, here)
  | here, n :: rest =>
    if n = [dot] then descend tree here rest
    else if n = [dot, dot] then descend tree here.dropLast rest
    else
      match tree.at? (here ++ [n]) with
      | none => descend (tree.putAt here (.directory n [])) (here ++ [n]) rest
      | some (.directory _ _) => descend tree (here ++ [n]) rest
      | some (.file _ _) => .error .notDirectory
      | some (.link _ _) => do descend tree (← follow tree true linkLimit here [n]) rest

/-- Puts a file into the directory at a location. `links` more links may be followed. -/
def putFile (tree : Entry) (bytes : List UInt8) :
    Nat → List Name → Name → Except IoError Entry
  | links, here, n =>
    match tree.at? (here ++ [n]) with
    | some (.directory _ _) => .error .isDirectory
    | some (.link _ target) =>
      match links, target.steps.getLast? with
      | 0, _ => .error .tooManyLinks
      | _, none => .error .notFound
      | links' + 1, some m => do
        let dir ← follow tree true linkLimit (if target.isAbsolute then [] else here)
          target.steps.dropLast
        putFile tree bytes links' dir m
    | _ => .ok (tree.putAt here (.file n bytes))

/-- Where a path starts to be looked up. -/
def origin (host : Host) (p : Path) : List Name :=
  if p.isAbsolute then [] else host.workingDirectory

/-- Makes a directory, and those above it. -/
def makeDirectory (host : Host) (p : Path) : Except IoError Host := do
  let (tree, _) ← descend host.tree (host.origin p) p.steps
  .ok { host with tree := tree }

/-- Makes the directory that is to hold a path. Gives its location and the name in it. -/
def makeParent (host : Host) (p : Path) : Except IoError (Entry × List Name × Name) := do
  match p.steps.getLast? with
  | none => .error .notFound
  | some n =>
    let (tree, here) ← descend host.tree (host.origin p) p.steps.dropLast
    .ok (tree, here, n)

/-- Writes a file. -/
def writeFile (host : Host) (p : Path) (bytes : List UInt8) : Except IoError Host := do
  let (tree, here, n) ← host.makeParent p
  .ok { host with tree := ← putFile tree bytes linkLimit here n }

/-- Makes a link. -/
def makeLink (host : Host) (p : Path) (target : Path) : Except IoError Host := do
  let (tree, here, n) ← host.makeParent p
  .ok { host with tree := tree.putAt here (.link n target) }

/-- Removes an entry, with all that is in it. -/
def remove (host : Host) (p : Path) : Except IoError Host := do
  let location ← host.locate p false
  let _ ← host.entry p false
  match location.getLast? with
  | some n => .ok { host with tree := host.tree.eraseAt location.dropLast n }
  | none => .error .permissionDenied

end SiteLint.Host
