import SiteLint.Host
import SiteLint.Tool

/-!
Starting programs on a machine.

A program is an executable file whose answers are known. It is looked up in the search directory
when its name has no slash, and else from the directory it is to run in. Each run gives the next
answer; the last one is given again and again.
-/

namespace SiteLint.Launch

/-- What one run of a program prints, and its exit status; none when a signal ends it. -/
structure Response where
  printed : List UInt8
  status : Option Int
  deriving DecidableEq, Repr

/-- An executable file with the answers that it has left. -/
structure Executable where
  location : List Name
  /-- What the program is called in the record of calls. -/
  label : String
  responses : List Response
  deriving DecidableEq, Repr

/-- A start of a program. -/
structure Call where
  label : String
  directory : Path
  arguments : List String
  deriving DecidableEq, Repr

/-- The programs of a machine, and the calls so far. -/
structure Machine where
  executables : List Executable
  calls : List Call
  deriving DecidableEq, Repr

/-- Texts that the system takes end at such a character. -/
def hasNul (s : String) : Bool := s.toList.contains '\x00'

/-- The directory a command runs in. -/
def runDirectory (host : Host) (dir : Option Path) : Except IoError (List Name) :=
  match dir with
  | none => .ok host.workingDirectory
  | some p => do
    let location ← host.locate p true
    match host.tree.at? location with
    | some (.directory _ _) => .ok location
    | some _ => .error .notDirectory
    | none => .error .notFound

/-- The path under which a program is looked up. -/
def programPath (search : Path) (program : String) : Path :=
  if program.toList.contains '/' || program = "" then .ofString program
  else search.join (.ofString program)

/-- Finds the executable file of a command, and the directory it runs in. -/
def find (host : Host) (search : Path) (m : Machine) (c : ToolCommand) :
    Except IoError (Executable × List Name) := do
  if (c.program :: c.arguments).any hasNul || c.directory.any fun d => d.bytes.contains 0 then
    .error .nulInArgument
  else
    let dir ← runDirectory host c.directory
    let location ← { host with workingDirectory := dir }.locate (programPath search c.program) true
    match m.executables.find? (·.location = location) with
    | some e => .ok (e, dir)
    | none => .error .permissionDenied

/-- What is left of the answers after one was given. -/
def remaining : List Response → List Response
  | _ :: r :: rs => r :: rs
  | rs => rs

/-- The exit status that the system passes on. -/
def statusOf (r : Response) : Option Int := r.status.map (· % 256)

/-- The output of a run. -/
def outputOf (e : Executable) : ToolOutput :=
  match e.responses with
  | [] => ⟨"", some 0⟩
  | r :: _ => ⟨String.ofList (Text.Utf8.lenientText r.printed), statusOf r⟩

/-- The machine after a run of one of its programs. -/
def Machine.after (m : Machine) (e : Executable) (c : Call) : Machine where
  executables := m.executables.map fun x =>
    if x.location = e.location then { x with responses := remaining x.responses } else x
  calls := m.calls ++ [c]

/-- Runs commands by starting programs. -/
def runner (host : Host) (search : Path) : Runner Machine := fun c m =>
  match find host search m c with
  | .error e => (.error (.tool c.program (.notStarted e)), m)
  | .ok (e, dir) =>
    (.ok (outputOf e), m.after e ⟨e.label, Path.ofLocation dir, c.arguments⟩)

/-- Places an executable file on a machine. -/
def Machine.place (m : Machine) (e : Executable) : Machine :=
  { m with executables := e :: m.executables.filter (·.location ≠ e.location) }

end SiteLint.Launch
