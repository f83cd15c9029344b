import SiteLint.LinterConfig
import SiteLint.Project

/-!
The set-up of a whole run.

What the command line asks for comes first, then what the site's settings say, then the built-in
values.
-/

namespace SiteLint

/-- The programs that are run. -/
structure Tools where
  eslint : String
  php : String
  phpcs : String
  deriving DecidableEq, Repr

structure Configuration where
  projectRoot : Path
  pluginDirectory : Path
  /-- The file that the settings came from. -/
  settingsPath : Option Path
  /-- The form of the output: `json` is a form of its own, any other name means plain text. -/
  output : String
  eslint : LinterConfig
  phpcs : LinterConfig
  /-- Whether the advertisement in the output of the standards check is cut off. -/
  stripAdvertisement : Bool
  tools : Tools
  unsupportedTarget : UnsupportedTarget
  /-- Whether findings alone make the run fail. -/
  failOnViolations : Bool
  deriving DecidableEq, Repr

namespace Configuration

/-- The programs to run, under what the settings say. -/
def toolsOf (plugin : Path) (names : Option ToolNames) : Tools where
  eslint := (names.bind (·.eslint)).getD "eslint"
  php := (names.bind (·.php)).getD "php"
  phpcs := (names.bind (·.phpcs)).getD (plugin.join (.ofString "vendor/bin/phpcs")).toString

/-- The set-up that settings lead to. -/
def ofSettings (root plugin : Path) (source : Option Path) (s : Settings)
    (output : Option String) : Configuration where
  projectRoot := root
  pluginDirectory := plugin
  settingsPath := source
  output := (output.or s.output).getD "human"
  eslint := (LinterConfig.eslintDefault plugin).merge s.eslintOverrides root
  phpcs := (LinterConfig.phpDefault plugin).merge s.phpcsOverrides root
  stripAdvertisement := (s.phpcs.bind (·.stripAdvertisement)).getD true
  tools := toolsOf plugin s.tools
  unsupportedTarget := (s.lint.bind (·.unsupportedTarget)).getD .skip
  failOnViolations := (s.lint.bind (·.failOnViolations)).getD true

/-- What the command line may ask for. -/
structure Request where
  projectRoot : Option String
  pluginDirectory : Option String
  output : Option String
  deriving DecidableEq, Repr

/-- The set-up of a run on a machine. -/
def resolve (host : Host) (asked : Request) : Except Failure Configuration := do
  let start ← (host.canonical (.ofString (asked.projectRoot.getD "."))).mapError .io
  let root := Project.rootFrom host start
  let plugin := Project.pluginDirectory host asked.pluginDirectory
  match ← Settings.load host root with
  | some (source, s) => .ok (ofSettings root plugin (some source) s asked.output)
  | none => .ok (ofSettings root plugin none .none asked.output)

/-- The output is one JSON document. -/
def wantsJson (c : Configuration) : Bool := c.output = "json"

end Configuration

end SiteLint
