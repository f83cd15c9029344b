import SiteLint.Record
import SiteLint.Settings

/-!
Reading settings out of a document.

The settings have one shape, whatever format they are written in. A format says how its values
are seen as texts, flags, lists, records and so on; the shape is described once, on top of that.

Names that are not known are skipped. The section on coding standards is special: what it says
about the linter is kept first, under the format's rules for values of any kind, and is told apart
only afterwards. So an unknown name in that section has to hold a sound value.
-/

namespace SiteLint.Settings

/-- A value that was kept without a wish what it should be. -/
inductive Kept
  | nothing
  | text (s : String)
  | items (vs : List Kept)
  /-- A number, a truth value, a date or a record. -/
  | other
  deriving Inhabited

/-- How the values of a format are seen. Each view is missing for values that do not offer it. -/
structure View (α : Type) where
  /-- Whether the value stands for no value. -/
  absent? : α → Option Bool
  text? : α → Option String
  flag? : α → Option Bool
  items? : α → Option (List α)
  /-- A record with the given fields, which a format may allow to be written without their names. -/
  record? : List String → α → Option (Record α)
  /-- Members under their names. -/
  members? : α → Option (Record α)
  /-- One name out of several to choose from. -/
  choice? : α → Option String
  keep? : α → Option Kept

namespace Kept

def text? : Kept → Option String
  | text s => some s
  | _ => Option.none

/-- A kept value that may stand for no value. -/
def optional? {α : Type} (read : Kept → Option α) : Kept → Option (Option α)
  | nothing => some .none
  | k => (read k).map some

def texts? : Kept → Option (List String)
  | items ks => ks.mapM text?
  | _ => Option.none

end Kept

/-- A field that may be left out. -/
def optionalField? {α β : Type} (names : List String) (read : α → Option (Option β))
    (ms : Record α) : Option (Option β) := do
  match ← Record.field? names ms with
  | some v => read v
  | .none => some .none

namespace View

variable {α β : Type} (view : View α)

/-- A value that may stand for no value. -/
def optional? (read : α → Option β) (v : α) : Option (Option β) := do
  if ← view.absent? v then some .none else (read v).map some

def texts? (v : α) : Option (List String) := do (← view.items? v).mapM view.text?

/-- The section on a linter. -/
def overrides? (v : α) : Option Overrides := do
  let ms ← view.record? ["config", "ignore", "targets", "extensions"] v
  some {
    config := ← optionalField? ["config"] (view.optional? view.text?) ms
    ignore := ← optionalField? ["ignore"] (view.optional? view.text?) ms
    targets := ← optionalField? ["targets"] (view.optional? view.texts?) ms
    extensions := ← optionalField? ["extensions"] (view.optional? view.texts?) ms }

/-- The same, out of kept values. -/
def keptOverrides? (ms : Record Kept) : Option Overrides := do
  some {
    config := ← optionalField? ["config"] (Kept.optional? Kept.text?) ms
    ignore := ← optionalField? ["ignore"] (Kept.optional? Kept.text?) ms
    targets := ← optionalField? ["targets"] (Kept.optional? Kept.texts?) ms
    extensions := ← optionalField? ["extensions"] (Kept.optional? Kept.texts?) ms }

/-- The names of the setting that cuts off the advertisement. -/
def stripNames : List String := ["strip_advertisement", "stripAdvertisement"]

/-- The section on coding standards. -/
def standards? (v : α) : Option StandardsSection := do
  let ms ← view.members? v
  let strip ← optionalField? stripNames (view.optional? view.flag?) ms
  let kept ← (ms.without stripNames).mapM fun m => (view.keep? m.2).map (m.1, ·)
  some ⟨← keptOverrides? kept, strip⟩

def tools? (v : α) : Option ToolNames := do
  let ms ← view.record? ["eslint", "php", "phpcs"] v
  some {
    eslint := ← optionalField? ["eslint"] (view.optional? view.text?) ms
    php := ← optionalField? ["php"] (view.optional? view.text?) ms
    phpcs := ← optionalField? ["phpcs"] (view.optional? view.text?) ms }

def unsupportedTarget? (v : α) : Option UnsupportedTarget := do
  match ← view.choice? v with
  | "skip" => some .skip
  | "warn" => some .warn
  | _ => Option.none

/-- The section on runs. -/
def run? (v : α) : Option RunSection := do
  let ms ← view.record? ["unsupported_target", "fail_on_violations"] v
  some {
    unsupportedTarget := ← optionalField? ["unsupported_target", "unsupportedTarget"]
      (view.optional? view.unsupportedTarget?) ms
    failOnViolations := ← optionalField? ["fail_on_violations", "failOnViolations"]
      (view.optional? view.flag?) ms }

/-- The names of the sections and of the settings outside sections. -/
def settingNames : List String :=
  ["output", "eslint", "phpcs", "tools", "lint", "eslintrc", "eslintIgnore", "phpcsStandard"]

/-- All settings. -/
def settings? (v : α) : Option Settings := do
  let ms ← view.record? settingNames v
  some {
    output := ← optionalField? ["output"] (view.optional? view.text?) ms
    eslint := ← optionalField? ["eslint"] (view.optional? view.overrides?) ms
    phpcs := ← optionalField? ["phpcs"] (view.optional? view.standards?) ms
    tools := ← optionalField? ["tools"] (view.optional? view.tools?) ms
    lint := ← optionalField? ["lint"] (view.optional? view.run?) ms
    eslintrc := ← optionalField? ["eslintrc"] (view.optional? view.text?) ms
    eslintIgnore := ← optionalField? ["eslintIgnore"] (view.optional? view.text?) ms
    phpcsStandard := ← optionalField? ["phpcsStandard"] (view.optional? view.text?) ms }

end View

end SiteLint.Settings
