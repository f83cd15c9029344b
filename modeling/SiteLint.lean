import SiteLint.CodeSniffer.Generated
import SiteLint.CodeSniffer.Pass
import SiteLint.CodeSniffer.Report
import SiteLint.CommandLine
import SiteLint.Configuration
import SiteLint.Console.Document
import SiteLint.Console.Lines
import SiteLint.Console.Style
import SiteLint.Eslint.Pass
import SiteLint.Eslint.Report
import SiteLint.Failure
import SiteLint.Glob
import SiteLint.Glob.Search
import SiteLint.Host
import SiteLint.Host.Description
import SiteLint.Host.Edit
import SiteLint.IoError
import SiteLint.Json
import SiteLint.Json.Reader
import SiteLint.Json.Shape
import SiteLint.Json.Token
import SiteLint.Json.Writer
import SiteLint.Launch
import SiteLint.LinterConfig
import SiteLint.Main
import SiteLint.OutputFilter
import SiteLint.Path
import SiteLint.PhpSyntax.Output
import SiteLint.PhpSyntax.Pass
import SiteLint.Program
import SiteLint.Project
import SiteLint.Proofs.Advertisement
import SiteLint.Proofs.CallSpans
import SiteLint.Proofs.ColouredLines
import SiteLint.Proofs.ConfiguredEntries
import SiteLint.Proofs.DirectoryLookup
import SiteLint.Proofs.DirectoryPattern
import SiteLint.Proofs.DirectoryWalk
import SiteLint.Proofs.DocumentGrammar
import SiteLint.Proofs.DocumentLookup
import SiteLint.Proofs.DocumentReading
import SiteLint.Proofs.DocumentText
import SiteLint.Proofs.DocumentValues
import SiteLint.Proofs.EslintEntries
import SiteLint.Proofs.EslintRoundTrip
import SiteLint.Proofs.ExtensionOptions
import SiteLint.Proofs.FailClosed
import SiteLint.Proofs.FilteredOutput
import SiteLint.Proofs.GeneratedNames
import SiteLint.Proofs.IgnorePatterns
import SiteLint.Proofs.ListArguments
import SiteLint.Proofs.NamedTarget
import SiteLint.Proofs.OlderKeys
import SiteLint.Proofs.OutputModes
import SiteLint.Proofs.OverrideLayers
import SiteLint.Proofs.PathLookup
import SiteLint.Proofs.PathNames
import SiteLint.Proofs.PathSpelling
import SiteLint.Proofs.PathText
import SiteLint.Proofs.PatternDepth
import SiteLint.Proofs.PatternSearch
import SiteLint.Proofs.ProjectFile
import SiteLint.Proofs.ProjectRoot
import SiteLint.Proofs.ReportRules
import SiteLint.Proofs.RootPattern
import SiteLint.Proofs.RulePaths
import SiteLint.Proofs.RunCombined
import SiteLint.Proofs.RunFootprint
import SiteLint.Proofs.RunLog
import SiteLint.Proofs.RunProtocol
import SiteLint.Proofs.RunSyntaxFirst
import SiteLint.Proofs.SettingsSource
import SiteLint.Proofs.ShownPath
import SiteLint.Proofs.StandardsEntries
import SiteLint.Proofs.StandardsRoundTrip
import SiteLint.Proofs.SyntaxCheckOrder
import SiteLint.Proofs.SyntaxMessage
import SiteLint.Proofs.SyntaxMessageText
import SiteLint.Proofs.TargetPaths
import SiteLint.Proofs.TargetResolution
import SiteLint.Proofs.TextBytes
import SiteLint.Proofs.TextCut
import SiteLint.Proofs.TokenScan
import SiteLint.Proofs.TreeLookup
import SiteLint.Proofs.WrittenOptions
import SiteLint.Record
import SiteLint.Report
import SiteLint.Run
import SiteLint.Run.Plan
import SiteLint.Settings
import SiteLint.Settings.Format
import SiteLint.Settings.Project
import SiteLint.Settings.Schema
import SiteLint.Settings.Source
import SiteLint.Target
import SiteLint.Text.Blank
import SiteLint.Text.Decimal
import SiteLint.Text.Digit
import SiteLint.Text.Line
import SiteLint.Text.Ranges
import SiteLint.Text.Utf8
import SiteLint.TextSet
import SiteLint.Toml
import SiteLint.Toml.Reader
import SiteLint.Toml.Scalar
import SiteLint.Toml.Table
import SiteLint.Toml.Text
import SiteLint.Tool
import SiteLint.Tree
import SiteLint.Tree.Walk
import SiteLint.Warning
import SiteLint.Yaml
import SiteLint.Yaml.Cursor
import SiteLint.Yaml.Reader
import SiteLint.Yaml.Scalar
import SiteLint.Yaml.Token
