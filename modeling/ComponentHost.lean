import ComponentHost.Compiler
import ComponentHost.Document.Basic
import ComponentHost.Document.Blocks
import ComponentHost.Document.Cache
import ComponentHost.Document.Projection
import ComponentHost.Document.Region
import ComponentHost.Document.Store
import ComponentHost.Document.Tag
import ComponentHost.Domain.Composition
import ComponentHost.Domain.Direction
import ComponentHost.Domain.Joining
import ComponentHost.Domain.Mapping
import ComponentHost.Domain.Marks
import ComponentHost.Domain.Name
import ComponentHost.Domain.Punycode
import ComponentHost.Editor.Features
import ComponentHost.Editor.Messages
import ComponentHost.FileTree
import ComponentHost.FileView
import ComponentHost.Glob.Basic
import ComponentHost.Glob.Ignore
import ComponentHost.Glob.Match
import ComponentHost.Host.Basic
import ComponentHost.Host.SourceFiles
import ComponentHost.Json.Double
import ComponentHost.Json.Reader
import ComponentHost.Json.Relaxed
import ComponentHost.Json.Value
import ComponentHost.Path
import ComponentHost.Project.Basic
import ComponentHost.Project.Config
import ComponentHost.Project.Error
import ComponentHost.Project.Files
import ComponentHost.Project.Options
import ComponentHost.Proofs.BlockContents
import ComponentHost.Proofs.BlockRegions
import ComponentHost.Proofs.BridgedExports
import ComponentHost.Proofs.ByteScan
import ComponentHost.Proofs.CacheRuns
import ComponentHost.Proofs.CacheSteps
import ComponentHost.Proofs.ClosedComponents
import ComponentHost.Proofs.CompletionOrder
import ComponentHost.Proofs.ComponentImports
import ComponentHost.Proofs.ComponentNames
import ComponentHost.Proofs.Concatenation
import ComponentHost.Proofs.DirectiveRegions
import ComponentHost.Proofs.Encoding
import ComponentHost.Proofs.ExtendedConfigs
import ComponentHost.Proofs.FeatureRuns
import ComponentHost.Proofs.HostRuns
import ComponentHost.Proofs.Independence
import ComponentHost.Proofs.JsonTokens
import ComponentHost.Proofs.LanguagePlaces
import ComponentHost.Proofs.Locality
import ComponentHost.Proofs.Lookahead
import ComponentHost.Proofs.MadeNodes
import ComponentHost.Proofs.ModuleCandidates
import ComponentHost.Proofs.OrderedMembers
import ComponentHost.Proofs.Places
import ComponentHost.Proofs.PositionOrder
import ComponentHost.Proofs.Positions
import ComponentHost.Proofs.ProjectRoots
import ComponentHost.Proofs.ProjectionBytes
import ComponentHost.Proofs.QuotedValues
import ComponentHost.Proofs.RelaxedTexts
import ComponentHost.Proofs.ReplacedValues
import ComponentHost.Proofs.RootGrowth
import ComponentHost.Proofs.SameScripts
import ComponentHost.Proofs.ScanSteps
import ComponentHost.Proofs.ScriptColumns
import ComponentHost.Proofs.ScriptKinds
import ComponentHost.Proofs.ServedModules
import ComponentHost.Proofs.Shifting
import ComponentHost.Proofs.SourceIdentity
import ComponentHost.Proofs.UnopenedComponents
import ComponentHost.Proofs.WrittenDocuments
import ComponentHost.Proofs.WrittenTags
import ComponentHost.Resolve
import ComponentHost.Script.BridgeDeclaration
import ComponentHost.Script.Bridging
import ComponentHost.Script.Grammar.Bindings
import ComponentHost.Script.Grammar.Declarations
import ComponentHost.Script.Grammar.Expressions
import ComponentHost.Script.Grammar.Functions
import ComponentHost.Script.Grammar.Lexer
import ComponentHost.Script.Grammar.Markup
import ComponentHost.Script.Grammar.Members
import ComponentHost.Script.Grammar.Modules
import ComponentHost.Script.Grammar.Parse
import ComponentHost.Script.Grammar.Qualifiers
import ComponentHost.Script.Grammar.Rules
import ComponentHost.Script.Grammar.Script
import ComponentHost.Script.Grammar.Statements
import ComponentHost.Script.Grammar.Token
import ComponentHost.Script.Grammar.Types
import ComponentHost.Script.Kind
import ComponentHost.Script.Tree
import ComponentHost.Settings
import ComponentHost.Table
import ComponentHost.Text.Ascii
import ComponentHost.Text.Blank
import ComponentHost.Text.CodeTable
import ComponentHost.Text.Cursor
import ComponentHost.Text.Digit
import ComponentHost.Text.Identifier
import ComponentHost.Text.LineIndex
import ComponentHost.Text.Quoted
import ComponentHost.Text.Ranges
import ComponentHost.Text.Split
import ComponentHost.Text.Unprintable
import ComponentHost.Text.Utf8
import ComponentHost.Toml.Reader
import ComponentHost.Toml.Value
import ComponentHost.Uri.Basic
import ComponentHost.Uri.Host
import ComponentHost.Uri.Path
import ComponentHost.Uri.Percent
import ComponentHost.Proofs.ScanSafety
import ComponentHost.Proofs.GlobMatching
import ComponentHost.Proofs.GlobReading
import ComponentHost.Proofs.FileWays
import ComponentHost.Proofs.WalkRoots
import ComponentHost.Proofs.LargerViews
import ComponentHost.Proofs.ModuleExtensions
import ComponentHost.Proofs.ShownPaths
import ComponentHost.Proofs.PrunedWalks
import ComponentHost.Proofs.StraightPaths
import ComponentHost.Proofs.DirectoryPatterns
import ComponentHost.Proofs.OpenVersions
import ComponentHost.Proofs.VersionPairs
import ComponentHost.Proofs.ComponentListings
import ComponentHost.Proofs.LoadingChain
import ComponentHost.Proofs.NormalForms
