import SiteLint.Configuration
import SiteLint.Run.Plan

/-!
The command line.

A command comes first, then its options, in any order and each at most once. The value of an option
stands behind an equals sign or is the next argument, which must not look like an option itself.
An option that waits for its value, or that was given its value as an argument of its own, is
settled only when the next option comes or the arguments are over; an argument that cannot be
placed at all is reported before that.
-/

namespace SiteLint.CommandLine

/-- Why a command line asks for nothing that can be run. -/
inductive UsageError
  /-- Help is asked for. -/
  | helpWanted
  /-- The version is asked for with an option. -/
  | versionWanted
  | commandMissing
  | unknownCommand
  | unknownArgument
  | valueMissing
  /-- A value is given where none belongs. -/
  | valueNotWanted
  | optionRepeated
  deriving DecidableEq, Repr

/-- The exit status after a usage error; asking for help or the version is none. -/
def UsageError.exitCode : UsageError → Nat
  | helpWanted => 0
  | versionWanted => 0
  | _ => 2

/-- The options of the commands that lint. -/
inductive OptionName
  | target
  | projectRoot
  | pluginDirectory
  | output
  deriving DecidableEq, Repr

namespace OptionName

def all : List OptionName := [target, projectRoot, pluginDirectory, output]

/-- The option as it is written, without the hyphens. -/
def word : OptionName → String
  | target => "target"
  | projectRoot => "project-root"
  | pluginDirectory => "plugin-dir"
  | output => "output"

end OptionName

/-- The values of the options. -/
structure Arguments where
  target : Option String
  projectRoot : Option String
  pluginDirectory : Option String
  output : Option String
  deriving DecidableEq, Repr

namespace Arguments

def none : Arguments := ⟨.none, .none, .none, .none⟩

def get (a : Arguments) : OptionName → Option String
  | .target => a.target
  | .projectRoot => a.projectRoot
  | .pluginDirectory => a.pluginDirectory
  | .output => a.output

def set (a : Arguments) (v : String) : OptionName → Arguments
  | .target => { a with target := some v }
  | .projectRoot => { a with projectRoot := some v }
  | .pluginDirectory => { a with pluginDirectory := some v }
  | .output => { a with output := some v }

/-- What the options ask of the set-up. -/
def request (a : Arguments) : Configuration.Request := ⟨a.projectRoot, a.pluginDirectory, a.output⟩

end Arguments

/-- What a command line asks for. -/
inductive Invocation
  | version
  | lint (command : Command) (arguments : Arguments)
  deriving DecidableEq, Repr

/-- How an argument looks. -/
inductive Shape
  /-- Two hyphens and nothing else. -/
  | separator
  /-- Two hyphens and a word, perhaps with a value behind an equals sign. -/
  | long (word : String) (value : Option String)
  /-- A hyphen and letters. -/
  | short (letters : List Char)
  /-- Anything else, a hyphen alone included. -/
  | plain
  deriving DecidableEq, Repr

def Shape.of (arg : String) : Shape :=
  match arg.toList with
  | ['-', '-'] => separator
  | '-' :: '-' :: cs =>
    match Text.breakAt ['='] cs with
    | some (word, value) => long (String.ofList word) (some (String.ofList value))
    | none => long (String.ofList cs) none
  | ['-'] => plain
  | '-' :: cs => short cs
  | _ => plain

/-- The options read so far. -/
structure Reading where
  arguments : Arguments
  /-- The option that came last, if its value does not stand in the same argument, with the value
  once it is there. -/
  pending : Option (OptionName × Option String)
  deriving DecidableEq, Repr

namespace Reading

def start : Reading := ⟨.none, none⟩

/-- Puts the value of an option down. -/
def put (r : Reading) (o : OptionName) (v : String) : Except UsageError Reading :=
  if (r.arguments.get o).isSome then .error .optionRepeated
  else .ok { r with arguments := r.arguments.set v o }

/-- Settles the option that came last. -/
def settle (r : Reading) : Except UsageError Reading :=
  match r.pending with
  | none => .ok r
  | some (_, none) => .error .valueMissing
  | some (o, some v) => { r with pending := none }.put o v

/-- Reads one argument. -/
def step (options : List OptionName) (r : Reading) (arg : String) : Except UsageError Reading :=
  match Shape.of arg with
  | .separator => .error .unknownArgument
  | .long word value =>
    if word = "help" then
      match value with
      | some _ => .error .valueNotWanted
      | none => do
        let _ ← r.settle
        .error .helpWanted
    else
      match options.find? fun o => o.word = word with
      | none => .error .unknownArgument
      | some o => do
        let r ← r.settle
        match value with
        | some v => r.put o v
        | none => .ok { r with pending := some (o, none) }
  | .short letters =>
    if letters.head? = some 'h' then do
      let _ ← r.settle
      .error .helpWanted
    else .error .unknownArgument
  | .plain =>
    match r.pending with
    | some (o, none) => .ok { r with pending := some (o, some arg) }
    | _ => .error .unknownArgument

end Reading

/-- Reads the arguments behind a command. Two hyphens may end them; no argument has a place behind
those. -/
def readOptions (options : List OptionName) : Reading → List String → Except UsageError Arguments
  | r, [] => r.settle.map (·.arguments)
  | r, arg :: args =>
    if arg = "--" then
      if args = [] then r.settle.map (·.arguments) else .error .unknownArgument
    else do readOptions options (← r.step options arg) args

/-- The commands that lint, by their words. -/
def commands : List (String × Command) :=
  [("jslint", .jslint), ("phplint", .phplint), ("lint", .lint), ("cs", .cs)]

/-- The words that can stand first. -/
def commandWords : List String := "version" :: "help" :: commands.map (·.1)

/-- What the words behind `help` lead to. -/
def readHelp : List String → UsageError
  | [] => .helpWanted
  | [w] => if commandWords.contains w then .helpWanted else .unknownCommand
  | _ => .unknownCommand

/-- Reads a word in the place of the command, with the arguments behind it. -/
def readCommand (word : String) (args : List String) : Except UsageError Invocation :=
  if word = "help" then .error (readHelp args)
  else if word = "version" then (readOptions [] .start args).map fun _ => .version
  else
    match commands.lookup word with
    | some c => (readOptions OptionName.all .start args).map (.lint c)
    | none => .error .unknownCommand

/-- Reads a command line, without the name of the program. -/
def read : List String → Except UsageError Invocation
  | [] => .error .commandMissing
  | arg :: args =>
    match Shape.of arg with
    | .separator =>
      match args with
      | [] => .error .commandMissing
      | word :: _ =>
        .error (if commandWords.contains word then .unknownArgument else .unknownCommand)
    | .long word value =>
      if word = "help" ∨ word = "version" then
        .error (
          if value.isSome then .valueNotWanted
          else if word = "help" then .helpWanted
          else .versionWanted)
      else .error .unknownArgument
    | .short letters =>
      .error (
        if letters.head? = some 'h' then .helpWanted
        else if letters.head? = some 'V' then .versionWanted
        else .unknownArgument)
    | .plain => readCommand arg args

end SiteLint.CommandLine
