import SiteLint.Failure
import SiteLint.Glob.Search
import SiteLint.LinterConfig
import SiteLint.Warning

/-!
What a linter is run on.

A target named on the command line has to be there; a directory is passed on as it is, and a file
has to have one of the linter's extensions. Without one, the configured entries are expanded to
files, in their order and each file once. An entry that is not there gives no files.
-/

namespace SiteLint

/-- A path that was there when targets were looked for. -/
inductive Target
  | file (path : Path)
  | directory (path : Path)
  deriving DecidableEq, Repr

/-- Whether the command names the linter or runs it along with others. -/
inductive Scope
  | explicit
  | combined
  deriving DecidableEq, Repr

/-- The regular files beneath a directory that the linter handles. -/
def LinterConfig.filesBeneath (c : LinterConfig) (host : Host) (dir : Path) : List Path :=
  (host.filesBeneath dir).filter c.accepts

namespace Target

def path : Target → Path
  | file p => p
  | directory p => p

/-- The files of a target: a file stands for itself, whatever it is called. -/
def files (host : Host) (c : LinterConfig) : Target → List Path
  | file p => [p]
  | directory p => c.filesBeneath host p

/-- The files of targets, in order. -/
def expand (host : Host) (c : LinterConfig) (ts : List Target) : List Path :=
  ts.flatMap (files host c)

/-- The target that a command line names. -/
def requested (host : Host) (c : LinterConfig) (root : Path) (linter : String) (scope : Scope)
    (name : String) : Except Failure Target :=
  let p := root.join (.ofString name)
  if !host.pathExists p then .error (.targetNotFound p)
  else if host.isDirectory p then .ok (.directory p)
  else if !c.accepts p then
    .error (.unsupportedExtension p linter c.extensionList (scope = .explicit))
  else .ok (.file p)

/-- The files of one configured entry; nothing when the entry is no pattern though it looks like
one. -/
def entryFiles? (host : Host) (c : LinterConfig) (root : Path) (entry : String) :
    Option (List Path) :=
  if Glob.hasWildcard entry.toList then
    (Glob.pathsMatching? host root entry.toList).map fun ps =>
      ps.filter fun p => host.isFile p && c.accepts p
  else
    let p := root.join (.ofString entry)
    some (
      if host.isDirectory p then c.filesBeneath host p
      else if host.isFile p && c.accepts p then [p]
      else [])

/-- The paths without those that stand for the same path as an earlier one. -/
def distinct : List Path → List Path
  | [] => []
  | p :: ps => p :: (distinct ps).filter (!p.same ·)

/-- The targets that configured entries stand for. -/
def configured (host : Host) (c : LinterConfig) (root : Path) : List Target :=
  (distinct (c.targets.flatMap fun e => (entryFiles? host c root e).getD [])).map file

/-- The warnings that come with the configured entries. -/
def configuredWarnings (host : Host) (c : LinterConfig) (root : Path) : List Warning :=
  (c.targets.filter fun e => (entryFiles? host c root e).isNone).map .invalidPattern

/-- The targets of a run. -/
def resolve (host : Host) (c : LinterConfig) (root : Path) (linter : String) (scope : Scope)
    (name : Option String) : Except Failure (List Target) :=
  match name with
  | some n => (requested host c root linter scope n).map fun t => [t]
  | none => .ok (configured host c root)

/-- The warnings that come with the targets of a run. -/
def warnings (host : Host) (c : LinterConfig) (root : Path) (name : Option String) :
    List Warning :=
  match name with
  | some _ => []
  | none => configuredWarnings host c root

end Target

end SiteLint
