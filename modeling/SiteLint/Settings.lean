/-!
What a site can say about how it is linted.

Everything is optional. A setting that is not given leaves the matter to the built-in values, so
nothing here has a value of its own. Three settings have an older name outside any section; the
setting inside the section is preferred.
-/

namespace SiteLint

/-- What a site says about one linter. -/
structure Overrides where
  /-- The file with the rules, or the coding standard. -/
  config : Option String
  /-- The file that lists what to pass over; the empty text asks for none. -/
  ignore : Option String
  /-- What to lint. -/
  targets : Option (List String)
  /-- Which files to lint, by extension. -/
  extensions : Option (List String)
  deriving DecidableEq, Repr, Inhabited

def Overrides.none : Overrides := ⟨.none, .none, .none, .none⟩

/-- What a site says about the coding standards check. -/
structure StandardsSection where
  linter : Overrides
  /-- Whether the advertisement in the tool's output is cut off. -/
  stripAdvertisement : Option Bool
  deriving DecidableEq, Repr, Inhabited

/-- The programs a site wants to be run. -/
structure ToolNames where
  eslint : Option String
  php : Option String
  phpcs : Option String
  deriving DecidableEq, Repr, Inhabited

/-- What a combined run does about a target that a linter cannot handle. -/
inductive UnsupportedTarget
  | skip
  | warn
  deriving DecidableEq, Repr, Inhabited

/-- What a site says about runs as a whole. -/
structure RunSection where
  unsupportedTarget : Option UnsupportedTarget
  failOnViolations : Option Bool
  deriving DecidableEq, Repr, Inhabited

/-- All that a site can say. -/
structure Settings where
  output : Option String
  eslint : Option Overrides
  phpcs : Option StandardsSection
  tools : Option ToolNames
  lint : Option RunSection
  /-- Older name of `eslint.config`. -/
  eslintrc : Option String
  /-- Older name of `eslint.ignore`. -/
  eslintIgnore : Option String
  /-- Older name of `phpcs.config`. -/
  phpcsStandard : Option String
  deriving DecidableEq, Repr, Inhabited

namespace Settings

/-- Nothing is said. -/
def none : Settings := ⟨.none, .none, .none, .none, .none, .none, .none, .none⟩

/-- What is said about ESLint, under any name. -/
def eslintOverrides (s : Settings) : Overrides :=
  let o := s.eslint.getD .none
  { o with
    config := o.config.or s.eslintrc
    ignore := o.ignore.or s.eslintIgnore }

/-- What is said about the coding standards check, under any name. -/
def phpcsOverrides (s : Settings) : Overrides :=
  let o := (s.phpcs.map (·.linter)).getD .none
  { o with config := o.config.or s.phpcsStandard }

end Settings

end SiteLint
