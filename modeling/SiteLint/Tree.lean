import SiteLint.Path

/-!
Files, symbolic links and directories as one value.

A location is the list of names that leads from the top directory to an entry, through
directories only. Entries of a directory are kept in the order they were made; no operation
depends on that order.
-/

namespace SiteLint

/-- An entry of a directory, with its name. -/
inductive Entry
  | file (name : Name) (bytes : List UInt8)
  | link (name : Name) (target : Path)
  | directory (name : Name) (entries : List Entry)
  deriving Inhabited

namespace Entry

def name : Entry → Name
  | file n _ => n
  | link n _ => n
  | directory n _ => n

def isDirectory : Entry → Bool
  | directory _ _ => true
  | _ => false

def isFile : Entry → Bool
  | file _ _ => true
  | _ => false

/-- The entries inside, for a directory. -/
def entries : Entry → List Entry
  | directory _ es => es
  | _ => []

/-- The entry of a given name. -/
def find? (n : Name) (es : List Entry) : Option Entry := es.find? (·.name = n)

/-- The entries with `e` among them, in place of the one that had its name. -/
def put (e : Entry) (es : List Entry) : List Entry :=
  if (find? e.name es).isSome then es.map fun d => if d.name = e.name then e else d
  else es ++ [e]

/-- The entry at a location below this one. -/
def at? : Entry → List Name → Option Entry
  | e, [] => some e
  | directory _ es, n :: ns =>
    match find? n es with
    | some e => e.at? ns
    | none => none
  | _, _ :: _ => none

/-- Replaces the entries of the directory at a location; nothing happens when none is there. -/
def updateAt (f : List Entry → List Entry) : List Name → Entry → Entry
  | [], directory n es => directory n (f es)
  | m :: ms, directory n es =>
    directory n (es.map fun e => if e.name = m then e.updateAt f ms else e)
  | _, e => e

/-- Puts an entry into the directory at a location. -/
def putAt (tree : Entry) (location : List Name) (e : Entry) : Entry :=
  tree.updateAt (put e) location

/-- Takes the entry named `n` out of the directory at a location. -/
def eraseAt (tree : Entry) (location : List Name) (n : Name) : Entry :=
  tree.updateAt (·.filter (·.name ≠ n)) location

/-- The top directory when nothing is in it. -/
def emptyTree : Entry := directory [] []

end Entry

end SiteLint
