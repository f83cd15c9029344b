import SiteLint.Report
import SiteLint.Text.Blank
import SiteLint.Text.Digit
import SiteLint.Text.Line

/-!
What PHP says about a file it cannot parse.

The message starts a line with the kind of error and ends a line with the place:
"Parse error: text in file on line number". The text ends at the first " in " from which a file
name and a place can follow, on one line; the place is the first " on line " after it that is
followed by a number and the end of the line. The blanks before the text may hold line breaks.
-/

namespace SiteLint.PhpSyntax

/-- The digits after " on line ", when only blanks follow them on the line. -/
def lineNumber? (cs : List Char) : Option (List Char) :=
  let digits := cs.takeWhile Text.isDecimal
  let rest := (cs.dropWhile Text.isDecimal).takeWhile (· ≠ '\n')
  if digits.isEmpty || !Text.isBlankText rest then none else some digits

/-- What follows `marker`, when the text starts with it. -/
def after? (marker : String) (cs : List Char) : Option (List Char) :=
  if marker.toList.isPrefixOf cs then some (cs.drop marker.toList.length) else none

/-- The digits of the place, for a text that starts inside a file name. -/
def placeWithin : List Char → Option (List Char)
  | [] => none
  | c :: cs =>
    match (after? " on line " (c :: cs)).bind lineNumber? with
    | some digits => some digits
    | none => if c = '\n' then none else placeWithin cs

/-- The digits of the place, for a text that starts with a file name of at least one character. -/
def place? : List Char → Option (List Char)
  | [] => none
  | c :: cs => if c = '\n' then none else placeWithin cs

/-- The rest of the error's text and the digits of the place, for a text that starts inside the
error's text. -/
def textWithin : List Char → Option (List Char × List Char)
  | [] => none
  | c :: cs =>
    match (after? " in " (c :: cs)).bind place? with
    | some digits => some ([], digits)
    | none =>
      if c = '\n' then none
      else (textWithin cs).map fun (text, digits) => (c :: text, digits)

/-- The error's text, of at least one character, and the digits of the place. -/
def textAndPlace? : List Char → Option (List Char × List Char)
  | [] => none
  | c :: cs =>
    if c = '\n' then none else (textWithin cs).map fun (text, digits) => (c :: text, digits)

/-- As `textAndPlace?`, after as many of the blanks in front as possible. -/
def textAfterBlanks? : List Char → Option (List Char × List Char)
  | [] => none
  | c :: cs =>
    if Text.isBlank c then (textAfterBlanks? cs).or (textAndPlace? (c :: cs))
    else textAndPlace? (c :: cs)

/-- What follows the kind of error, for a text that starts with one. -/
def afterKind? (cs : List Char) : Option (List Char) :=
  let cs := (after? "PHP " cs).getD cs
  (after? "Parse error:" cs).or (after? "Fatal error:" cs)

/-- The first error message in a text, searched at the start of each line; `lineStart` says that
the text begins at the start of a line. -/
def findError? (lineStart : Bool) : List Char → Option (List Char × List Char)
  | [] => none
  | c :: cs =>
    match (if lineStart then (afterKind? (c :: cs)).bind textAfterBlanks? else none) with
    | some found => some found
    | none => findError? (c = '\n') cs

/-- The first line that says something about the error. -/
def firstRemark? (printed : List Char) : Option (List Char) :=
  ((Text.lines printed).map Text.trim).find? fun l =>
    !l.isEmpty && !"Errors parsing".toList.isPrefixOf l

/-- The message for a failing check, from what PHP printed and its exit status. -/
def readMessage (printed : String) (status : Int) : Message :=
  match findError? true printed.toList with
  | some (text, digits) =>
    Message.located ((Text.readCount digits).getD 1) 1 .fatal (String.ofList (Text.trim text)) none
  | none =>
    match firstRemark? printed.toList with
    | some line => Message.located 1 1 .fatal (String.ofList line) none
    | none => Message.located 1 1 .fatal s!"syntax check failed with status {status}" none

end SiteLint.PhpSyntax
