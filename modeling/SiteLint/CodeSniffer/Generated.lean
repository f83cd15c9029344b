import SiteLint.Glob
import SiteLint.Path

/-!
Files that Drupal writes itself when configuration is exported.

They are known by their names alone and are kept out of every coding standards report.
-/

namespace SiteLint.CodeSniffer

/-- The patterns that the names of generated files match. -/
def generatedPatterns : List String :=
  ["*.apachesolr_environments.inc",
   "*.apachesolr_search_defaults.inc",
   "*.context.inc",
   "*.features.*.inc",
   "*.features.inc",
   "*.field_group.inc",
   "*.pages_default.inc",
   "*.strongarm.inc",
   "*.views_default.inc"]

/-- The patterns, ready for matching. -/
def generatedNames : List Glob.Pattern :=
  generatedPatterns.filterMap fun p => Glob.compile? p.toList

/-- The path names a generated file. -/
def isGenerated (path : String) : Bool :=
  let n := (Path.ofString path).fileName?.getD []
  generatedNames.any (·.accepts (Text.Utf8.lenientText n))

end SiteLint.CodeSniffer
