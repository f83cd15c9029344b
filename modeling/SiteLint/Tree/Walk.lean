import SiteLint.Tree

/-!
The regular files of a directory, at any depth.

A directory is listed in the order of its names. What stands inside a directory comes where the
directory's own name comes, so the files are in the order of their paths compared name by name.
Links are neither listed nor followed. Each directory is opened by its whole path, and one whose
path is too long for that is passed over with all that is in it.
-/

namespace SiteLint.Entry

/-- Blocks of paths, put in the order of the names they belong to. -/
def inNameOrder (blocks : List (Name × List Path)) : List Path :=
  (blocks.mergeSort fun a b => Name.atMost a.1 b.1).flatMap (·.2)

mutual

/-- The regular files an entry holds, when the entry is found under `path`. -/
def filesAt (path : Path) : Entry → List Path
  | file _ _ => [path]
  | link _ _ => []
  | directory _ es =>
    if Path.limit ≤ path.bytes.length then [] else inNameOrder (filesAmong path es)

/-- For each entry of the directory `dir`, its name and the regular files it holds. -/
def filesAmong (dir : Path) : List Entry → List (Name × List Path)
  | [] => []
  | e :: es => (e.name, e.filesAt (dir.child e.name)) :: filesAmong dir es

end

end SiteLint.Entry
