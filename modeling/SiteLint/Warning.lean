import SiteLint.Path

/-!
Things that are not as they should be but do not stop a run.
-/

namespace SiteLint

inductive Warning
  /-- A configured target has the look of a pattern but is none. -/
  | invalidPattern (entry : String)
  /-- The ignore file that a site names for ESLint is not there. -/
  | ignoreFileMissing (path : Path)
  /-- The ignore file for the standards check cannot be read. -/
  | ignoreFileUnreadable (path : Path)
  deriving DecidableEq, Repr

def Warning.message : Warning → String
  | invalidPattern _ => "invalid target pattern; skipping"
  | ignoreFileMissing _ => "ESLint ignore file not found; running without it"
  | ignoreFileUnreadable _ => "PHPCS ignore file unreadable; using the built-in list only"

end SiteLint
