import SiteLint.Host.Edit
import SiteLint.Json.Shape
import SiteLint.Tool

/-!
A machine, described in a JSON document.

The document is an object. `directory` is the working directory, `home` the plugin directory that
the environment names, `plain` asks for output without colours and `program` is the directory of the
program; all of them may be left out. `files` maps paths, seen from the working directory, to what
is there: a text is a file, null a directory, and an array with one text a link. `answers` lists what
the tools will say, in the order of their calls: each is an object with `printed` and `status`, where
a missing status means that a signal ended the tool.
-/

namespace SiteLint.Host

/-- What is at a path. -/
inductive Content
  | file (text : String)
  | directory
  | link (target : Path)
  deriving DecidableEq, Repr

def Content.read? : Json → Option Content
  | .null => some directory
  | .str (some s) => some (file s)
  | .arr [.str (some target)] => some (link (.ofString target))
  | _ => none

/-- Puts something at a path. -/
def place (host : Host) (p : Path) : Content → Except IoError Host
  | .file s => host.writeFile p s.toUTF8.toList
  | .directory => host.makeDirectory p
  | .link target => host.makeLink p target

/-- A machine with no files but its working directory. -/
def bare (directory : Path) : Except IoError Host :=
  let empty : Host := ⟨Entry.emptyTree, [], none, false, ⟨[slash]⟩⟩
  do
    let (tree, here) ← descend empty.tree [] directory.steps
    .ok { empty with tree := tree, workingDirectory := here }

/-- Puts things at paths, one after the other. -/
def placeAll (host : Host) : Record Content → Except IoError Host
  | [] => .ok host
  | (p, c) :: rest => do placeAll (← host.place (.ofString p) c) rest

/-- Reads the description of a machine. -/
def read? (v : Json) : Option Host := do
  let ms ← v.members?
  let directory ← Json.withDefault? "directory" "/" Json.text? ms
  let home ← Json.withDefault? "home" none (Json.optional? Json.text?) ms
  let plain ← Json.withDefault? "plain" false Json.flag? ms
  let program ← Json.withDefault? "program" "/" Json.text? ms
  let files ← Json.withDefault? "files" [] Json.members? ms
  let contents ← files.mapM fun (p, c) => (Content.read? c).map (p, ·)
  let host ← (bare (.ofString directory)).toOption
  let host ← (host.placeAll contents).toOption
  some { host with
    pluginHome := home.map .ofString
    noColor := plain
    programDirectory := .ofString program }

/-- Reads an answer of a tool. -/
def readAnswer? (v : Json) : Option Runner.Answer := do
  let ms ← v.members?
  let printed ← Json.withDefault? "printed" "" Json.text? ms
  let status ← Json.withDefault? "status" none (Json.optional? Json.count?) ms
  some (.output ⟨printed, status.map fun n => (n : Int)⟩)

/-- Reads the answers of the tools. -/
def readAnswers? (v : Json) : Option (List Runner.Answer) := do
  Json.withDefault? "answers" [] (Json.listOf? readAnswer?) (← v.members?)

end SiteLint.Host
