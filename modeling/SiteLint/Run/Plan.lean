import SiteLint.CodeSniffer.Pass
import SiteLint.Eslint.Pass
import SiteLint.PhpSyntax.Pass

/-!
Which passes a command consists of.

A command covers one or two domains, and each domain takes one or two passes, in a fixed order.
-/

namespace SiteLint

/-- The commands that lint. -/
inductive Command
  | jslint
  | phplint
  | lint
  /-- Coding standards only. -/
  | cs
  deriving DecidableEq, Repr

/-- A kind of files with a set-up of its own. -/
inductive Domain
  | js
  | php
  deriving DecidableEq, Repr

/-- One tool run on the files of a domain. -/
inductive Pass
  | eslint
  | phpSyntax
  | phpStandards
  deriving DecidableEq, Repr

namespace Command

/-- The domains of a command, in order. -/
def domains : Command → List Domain
  | jslint => [.js]
  | phplint => [.php]
  | cs => [.php]
  | lint => [.js, .php]

/-- The passes of a command on a domain, in order. -/
def passes : Command → Domain → List Pass
  | _, .js => [.eslint]
  | cs, .php => [.phpStandards]
  | _, .php => [.phpSyntax, .phpStandards]

/-- The combined command runs linters that it does not name. -/
def scope : Command → Scope
  | lint => .combined
  | _ => .explicit

end Command

namespace Domain

/-- What messages about targets call the linter. -/
def linterName : Domain → String
  | js => Eslint.passName
  | php => "PHP linting"

/-- What notices call the files. -/
def label : Domain → String
  | js => "JavaScript"
  | php => "PHP"

def config (c : Configuration) : Domain → LinterConfig
  | js => c.eslint
  | php => c.phpcs

end Domain

namespace Pass

/-- What messages call the pass. -/
def name : Pass → String
  | eslint => Eslint.passName
  | phpSyntax => PhpSyntax.passName
  | phpStandards => CodeSniffer.passName

/-- What a document calls the pass. -/
def key : Pass → String
  | eslint => "eslint"
  | phpSyntax => "php-syntax"
  | phpStandards => "php-standards"

/-- The line that announces the pass. -/
def banner : Pass → String
  | eslint => "Running linters on JavaScript code files..."
  | phpSyntax => "Running linters on PHP code files..."
  | phpStandards => "Running coding standards sniffers on PHP code files..."

/-- Runs the pass on targets. -/
def check {σ : Type} (host : Host) (c : Configuration) (run : Runner σ) (targets : List Target) :
    Pass → σ → Except Failure Report × σ
  | eslint => Eslint.check host c run targets
  | phpSyntax => PhpSyntax.check host c run targets
  | phpStandards => CodeSniffer.check host c run targets

/-- The warnings of the pass. -/
def warnings (host : Host) (c : Configuration) : Pass → List Warning
  | eslint => Eslint.warnings host c
  | phpSyntax => []
  | phpStandards => CodeSniffer.warnings host c

end Pass

end SiteLint
