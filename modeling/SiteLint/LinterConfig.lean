import SiteLint.Path
import SiteLint.Settings
import SiteLint.TextSet

/-!
How one linter is set up.

Built-in values come first, and what a site says replaces them, field by field. A path that a site
gives is seen from the root of the project. Lists are replaced as a whole.
-/

namespace SiteLint

structure LinterConfig where
  /-- The file with the rules, or the coding standard. -/
  configPath : Path
  /-- The file that lists what to pass over. -/
  ignorePath : Option Path
  /-- Directories, files and patterns, seen from the root of the project. -/
  targets : List String
  /-- The extensions of the files to lint, with or without dots in front. -/
  extensions : TextSet
  deriving DecidableEq, Repr

namespace LinterConfig

/-- Where a Drupal site keeps code of its own. -/
def codeDirectories : List String := ["modules/custom", "modules/features", "themes/custom"]

/-- The extensions of PHP files in a Drupal site. -/
def phpExtensions : List String := ["php", "module", "inc", "install", "test", "profile", "theme"]

/-- ESLint as the plugin sets it up. -/
def eslintDefault (plugin : Path) : LinterConfig where
  configPath := (plugin.join (.ofString "src")).join (.ofString ".eslintrc")
  ignorePath := some ((plugin.join (.ofString "src")).join (.ofString ".eslintignore"))
  targets := codeDirectories ++ ["*.js"]
  extensions := .ofList ["js"]

/-- The PHP linters as the plugin sets them up. -/
def phpDefault (plugin : Path) : LinterConfig where
  configPath := plugin.join (.ofString "vendor/drupalmodule/coder/coder_sniffer/Drupal")
  ignorePath := none
  targets := codeDirectories
  extensions := .ofList phpExtensions

/-- An extension without the dots in front. -/
def bareExtension (e : String) : String := String.ofList (e.toList.dropWhile (· = '.'))

/-- The extensions without dots, in the order of the set. -/
def extensionList (c : LinterConfig) : List String := c.extensions.texts.map bareExtension

/-- The file has one of the extensions. -/
def accepts (c : LinterConfig) (p : Path) : Bool :=
  match p.extension? with
  | some e => c.extensionList.any fun allowed => Text.Utf8.encode allowed.toList = e
  | none => false

/-- The set-up with what a site says in place of what was there. -/
def merge (c : LinterConfig) (o : Overrides) (root : Path) : LinterConfig where
  configPath := (o.config.map fun p => root.join (.ofString p)).getD c.configPath
  ignorePath :=
    match o.ignore with
    | some p => if p = "" then none else some (root.join (.ofString p))
    | none => c.ignorePath
  targets := o.targets.getD c.targets
  extensions := (o.extensions.map .ofList).getD c.extensions

end LinterConfig

end SiteLint
