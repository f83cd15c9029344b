import SiteLint.Console.Style
import SiteLint.Path
import SiteLint.Report

/-!
A report as lines for a reader.

Each file has a line that tells whether there is something, a line for each message, and an empty
line behind it. Paths are shown from the working directory.
-/

namespace SiteLint.Console

/-- The line of a file. -/
def header (wd : Path) (colours : Bool) (f : FileResult) : String :=
  let shown := ((Path.ofString f.path).shownFrom wd).toString
  if f.messages.isEmpty then Style.good.paint colours ("✔ " ++ shown)
  else Style.bad.paint colours ("✖ " ++ shown)

/-- The line of a message. -/
def messageLine (colours : Bool) (m : Message) : String :=
  let kind :=
    match m.severity with
    | .fatal => "Fatal "
    | .warning => ""
  let line := Style.place.paint colours (toString m.line)
  let column := Style.place.paint colours (toString m.column)
  kind ++ "Error on line " ++ line ++ " column " ++ column ++ ": " ++
    Style.alarm.paint colours m.text

/-- The lines of a file. -/
def fileLines (wd : Path) (colours : Bool) (f : FileResult) : List String :=
  header wd colours f :: (f.messages.map (messageLine colours) ++ [""])

/-- The lines of a report. -/
def reportLines (wd : Path) (colours : Bool) (r : Report) : List String :=
  r.files.flatMap (fileLines wd colours)

end SiteLint.Console
