import SiteLint.Settings.Format

/-!
The project file, in which extensions of the site's build tool keep their settings.

Of the file only the extensions and their settings are read. The settings of every extension have
to have the shape of this program's settings, but only those under its own name count.
-/

namespace SiteLint.Settings

/-- The name under which settings are kept in the project file. -/
def extensionName : String := "aquifer-coder"

/-- The settings of one extension, if it has any. -/
def extensionSettings? (v : Json) : Option (Option Settings) := do
  let ms ← v.fields? ["config"]
  Json.withDefault? "config" Option.none
    (Json.optional? (jsonView (Json.depthLimit - 5)).settings?) ms

/-- The extensions that a project file lists, with their settings. -/
def extensions? (v : Json) : Option (Record (Option Settings)) := do
  let ms ← v.members?
  ms.mapM fun m => (extensionSettings? m.2).map (m.1, ·)

/-- The settings in a project file, if there are any. An extension that is listed twice counts with
its last entry. -/
def readProject? (text : String) : Option (Option Settings) := do
  let ms ← (← Json.read? text.toList).fields? ["extensions"]
  let extensions ← Json.withDefault? "extensions" [] extensions? ms
  some ((extensions.filter (·.1 = extensionName)).getLast?.bind (·.2))

end SiteLint.Settings
