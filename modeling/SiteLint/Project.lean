import SiteLint.Settings.Source

/-!
Which directory is the root of a project, and where the plugin is.
-/

namespace SiteLint

/-- A path and the paths above it, as far as the text alone shows them. -/
def Path.ancestorsWithin : Nat → Path → List Path
  | 0, p => [p]
  | steps + 1, p => p :: ((p.parent?.map (ancestorsWithin steps)).getD [])

/-- All paths at or above a path, the path itself first. -/
def Path.ancestors (p : Path) : List Path := p.ancestorsWithin p.bytes.length

namespace Project

/-- Entries that mark the root of a project. -/
def markers : List String := Settings.files.map (·.1) ++ [Settings.projectFile, ".git"]

/-- The directory holds a marker. -/
def isMarked (host : Host) (dir : Path) : Bool :=
  markers.any fun m => host.pathExists (dir.join (.ofString m))

/-- The closest directory with a marker at or above the start; the start itself when there is
none. -/
def rootFrom (host : Host) (start : Path) : Path :=
  (start.ancestors.find? (isMarked host)).getD start

/-- The directory of the plugin: the one that is asked for, else the one that the environment
names, else the one that holds the program. -/
def pluginDirectory (host : Host) (asked : Option String) : Path :=
  match asked with
  | some dir => .ofString dir
  | none => host.pluginHome.getD host.programDirectory

end Project

end SiteLint
