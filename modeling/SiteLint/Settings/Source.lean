import SiteLint.Failure
import SiteLint.Host
import SiteLint.Settings.Project

/-!
Where the settings of a site come from.

There are three files of settings, and the project file after them. The first one that is there is
the only one that is read; when it cannot be read or understood, that is an error, and the files
behind it do not help.
-/

namespace SiteLint.Settings

/-- The files of settings, the first to look for first. -/
def files : List (String × Format) :=
  [("aquifer-coder.toml", .toml), ("aquifer-coder.yaml", .yaml), ("aquifer-coder.yml", .yaml)]

def projectFile : String := "aquifer.json"

/-- The text of a file, or why it cannot be had. -/
def readFile (host : Host) (p : Path) : Except Failure String :=
  (host.readText p).mapError .io

/-- The settings in a file of settings. -/
def loadFile (host : Host) (p : Path) (format : Format) : Except Failure (Option (Path × Settings)) := do
  match read? format (← readFile host p) with
  | some s => .ok (some (p, s))
  | Option.none => .error (.settings p .mismatched)

/-- The settings in a project file. -/
def loadProject (host : Host) (p : Path) : Except Failure (Option (Path × Settings)) := do
  match readProject? (← readFile host p) with
  | some s => .ok (s.map (p, ·))
  | Option.none => .error (.settings p .mismatched)

/-- The settings of a project, with the file they came from. -/
def load (host : Host) (root : Path) : Except Failure (Option (Path × Settings)) :=
  match files.find? fun f => host.isFile (root.join (.ofString f.1)) with
  | some f => loadFile host (root.join (.ofString f.1)) f.2
  | Option.none =>
    let p := root.join (.ofString projectFile)
    if host.isFile p then loadProject host p else .ok Option.none

end SiteLint.Settings
