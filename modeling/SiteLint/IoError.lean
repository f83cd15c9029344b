/-!
Why the operating system, or the reading of a file as text, refuses a request.
-/

namespace SiteLint

inductive IoError
  | notFound
  | permissionDenied
  | notDirectory
  | isDirectory
  | nameTooLong
  | tooManyLinks
  /-- A path holds a character that ends paths. -/
  | nulInPath
  /-- An argument of a command holds a character that ends arguments. -/
  | nulInArgument
  /-- The bytes of a file are not text in UTF-8. -/
  | invalidUtf8
  /-- Any other cause, in the system's words. -/
  | other (text : String)
  deriving DecidableEq, Repr

namespace IoError

/-- The system's wording. -/
def message : IoError → String
  | notFound => "No such file or directory (os error 2)"
  | permissionDenied => "Permission denied (os error 13)"
  | notDirectory => "Not a directory (os error 20)"
  | isDirectory => "Is a directory (os error 21)"
  | nameTooLong => "File name too long (os error 36)"
  | tooManyLinks => "Too many levels of symbolic links (os error 40)"
  | nulInPath => "file name contained an unexpected NUL byte"
  | nulInArgument => "nul byte found in provided data"
  | invalidUtf8 => "stream did not contain valid UTF-8"
  | other text => text

end IoError

end SiteLint
