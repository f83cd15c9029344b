import SiteLint.IoError
import SiteLint.Path

/-!
What can stop a run or a part of it, and the words it is reported with.
-/

namespace SiteLint

/-- Why a document that was found could not be used. -/
inductive ReadFault
  /-- The text is no document of its format. -/
  | malformed
  /-- The document does not have the shape that is asked for. -/
  | mismatched
  /-- Any other cause, in words. -/
  | other (text : String)
  deriving DecidableEq, Repr

def ReadFault.message : ReadFault → String
  | malformed => "the text is not a well-formed document"
  | mismatched => "the document does not have the expected shape"
  | other text => text

/-- Why a tool gave no report. -/
inductive ToolFault
  | notStarted (error : IoError)
  /-- The file with ESLint's rules is not there. -/
  | ruleSetMissing (path : Path)
  /-- The coding standard is not there. -/
  | standardMissing (path : Path)
  /-- A signal ended the tool. -/
  | signalled
  /-- The exit status stands for no report; the line is the first thing the tool said. -/
  | badStatus (status : Int) (line : String)
  /-- The tool said nothing, and its exit status does not excuse that. -/
  | silent (status : Int)
  | unreadableReport (fault : ReadFault)
  | unreadableEntry (fault : ReadFault)
  /-- Any other cause, in words. -/
  | other (text : String)
  deriving DecidableEq, Repr

def ToolFault.message : ToolFault → String
  | notStarted e => e.message
  | ruleSetMissing p => s!"rule-set file not found: {p}"
  | standardMissing p => s!"coding standard not found: {p}"
  | signalled => "terminated by a signal"
  | badStatus status line => s!"exited with status {status}: {line}"
  | silent status => s!"exited with status {status} without a report"
  | unreadableReport fault => s!"unreadable report: {fault.message}"
  | unreadableEntry fault => s!"unreadable report entry: {fault.message}"
  | other text => text

/-- What can stop a run, or the part of it that concerns one linter. -/
inductive Failure
  | targetNotFound (path : Path)
  /-- The linter handles other files. `explicit` tells whether the command named the linter. -/
  | unsupportedExtension (path : Path) (linter : String) (extensions : List String)
      (explicit : Bool)
  | tool (name : String) (fault : ToolFault)
  | settings (path : Path) (fault : ReadFault)
  | io (error : IoError)
  deriving DecidableEq, Repr

namespace Failure

def message : Failure → String
  | targetNotFound p => s!"Target not found: {p}"
  | unsupportedExtension p linter extensions true =>
    let expected := String.intercalate ", " extensions
    s!"{linter} cannot lint {p} (expected one of: {expected})"
  | unsupportedExtension p linter _ false => s!"{linter} does not apply to {p}"
  | tool name fault => s!"{name} could not be run: {fault.message}"
  | settings p fault => s!"Invalid configuration in {p}: {fault.message}"
  | io error => s!"IO error: {error.message}"

/-- A combined run may pass over this failure without an error. -/
def isSkippable : Failure → Bool
  | unsupportedExtension _ _ _ explicit => !explicit
  | _ => false

/-- The exit status of a run that ends with a failure. -/
def exitCode (_ : Failure) : Nat := 2

end Failure

end SiteLint
