import BuildMacros.Assoc
import BuildMacros.Build
import BuildMacros.Components.Loading
import BuildMacros.Components.Request
import BuildMacros.Config.Basic
import BuildMacros.Config.Decode
import BuildMacros.Config.Encode
import BuildMacros.Config.Fields
import BuildMacros.Dictionary
import BuildMacros.Digest
import BuildMacros.Discovery
import BuildMacros.Error
import BuildMacros.Factories.Calls
import BuildMacros.Factories.Redirection
import BuildMacros.Import.Scan
import BuildMacros.Import.Table
import BuildMacros.Json.Basic
import BuildMacros.Json.Double
import BuildMacros.Json.Reader
import BuildMacros.Keys.Basic
import BuildMacros.Keys.Injection
import BuildMacros.Keys.Site
import BuildMacros.NameFilter
import BuildMacros.Naming
import BuildMacros.PageMeta
import BuildMacros.Pattern.Basic
import BuildMacros.Pattern.Bracket
import BuildMacros.Pattern.CharClass
import BuildMacros.Pattern.Escape
import BuildMacros.Pattern.Reader
import BuildMacros.Proofs.Assoc
import BuildMacros.Proofs.Build.MadeFunctions
import BuildMacros.Proofs.Build.Phases
import BuildMacros.Proofs.Build.Passes
import BuildMacros.Proofs.Build.ScanOrder
import BuildMacros.Proofs.Components.Bindings
import BuildMacros.Proofs.Components.InFront
import BuildMacros.Proofs.Components.Nesting
import BuildMacros.Proofs.Components.Prelude
import BuildMacros.Proofs.Components.Reaching
import BuildMacros.Proofs.Config.RoundTrip
import BuildMacros.Proofs.Factories.Exports
import BuildMacros.Proofs.Factories.Markers
import BuildMacros.Proofs.Factories.Origins
import BuildMacros.Proofs.Factories.Phantoms
import BuildMacros.Proofs.Factories.Redirection
import BuildMacros.Proofs.Import.Agreement
import BuildMacros.Proofs.Import.Reading
import BuildMacros.Proofs.Import.Spelling
import BuildMacros.Proofs.Keys.Appending
import BuildMacros.Proofs.Keys.Entitlement
import BuildMacros.Proofs.Keys.Imported
import BuildMacros.Proofs.Keys.KeyedTrees
import BuildMacros.Proofs.Keys.Members
import BuildMacros.Proofs.Keys.Mentions
import BuildMacros.Proofs.Keys.Numbering
import BuildMacros.Proofs.Keys.OwnExports
import BuildMacros.Proofs.Keys.Shadowing
import BuildMacros.Proofs.Naming
import BuildMacros.Proofs.PageMeta.Extraction
import BuildMacros.Proofs.PageMeta.Hoisting
import BuildMacros.Proofs.PageMeta.Waiting
import BuildMacros.Proofs.Pattern.Names
import BuildMacros.Proofs.Registry.Casing
import BuildMacros.Proofs.Registry.Displacement
import BuildMacros.Proofs.Registry.Interchange
import BuildMacros.Proofs.Registry.Scanning
import BuildMacros.Proofs.Registry.Sealing
import BuildMacros.Proofs.Safety
import BuildMacros.Proofs.Scope.Collecting
import BuildMacros.Proofs.Scope.Lexical
import BuildMacros.Proofs.Scope.OwnNames
import BuildMacros.Proofs.Scope.Replay
import BuildMacros.Proofs.Scope.Walk
import BuildMacros.Proofs.Script.Blocks
import BuildMacros.Proofs.Script.OpeningTags
import BuildMacros.Proofs.Script.StaticCalls
import BuildMacros.Proofs.Script.Weaving
import BuildMacros.Proofs.SourceMap.Decoding
import BuildMacros.Proofs.SourceMap.Layout
import BuildMacros.Proofs.SourceMap.Positions
import BuildMacros.Proofs.SourceMap.Vlq
import BuildMacros.Proofs.SourceMap.Words
import BuildMacros.Proofs.Specifiers
import BuildMacros.Proofs.Splice.Assembly
import BuildMacros.Proofs.Splice.Attribution
import BuildMacros.Proofs.Splice.Batches
import BuildMacros.Proofs.Splice.Edits
import BuildMacros.Proofs.Splice.Finish
import BuildMacros.Proofs.Splice.Insertions
import BuildMacros.Proofs.Splice.Mapping
import BuildMacros.Proofs.Splice.Reordering
import BuildMacros.Proofs.Splice.Tracing
import BuildMacros.Proofs.Template.Hydration
import BuildMacros.Proofs.Template.LocalNames
import BuildMacros.Proofs.Template.Nesting
import BuildMacros.Proofs.Template.Readings
import BuildMacros.Proofs.Template.Requests
import BuildMacros.Proofs.Text.Fields
import BuildMacros.Proofs.Text.Infixes
import BuildMacros.Proofs.Text.Slices
import BuildMacros.Registry.Component
import BuildMacros.Registry.Factory
import BuildMacros.Registry.Keyed
import BuildMacros.Script.Block
import BuildMacros.Script.CallSite
import BuildMacros.Script.Dialect
import BuildMacros.Script.Export
import BuildMacros.Script.Grammar
import BuildMacros.Script.Grammar.Basic
import BuildMacros.Script.Grammar.Chains
import BuildMacros.Script.Grammar.Declarations
import BuildMacros.Script.Grammar.Functions
import BuildMacros.Script.Grammar.Literals
import BuildMacros.Script.Grammar.Markup
import BuildMacros.Script.Grammar.Modules
import BuildMacros.Script.Grammar.Operators
import BuildMacros.Script.Grammar.Pattern
import BuildMacros.Script.Grammar.Statements
import BuildMacros.Script.Grammar.Types
import BuildMacros.Script.Module
import BuildMacros.Script.Node
import BuildMacros.Script.Outline
import BuildMacros.Script.Scope.Cursor
import BuildMacros.Script.Scope.Tracker
import BuildMacros.Script.Token
import BuildMacros.SourceMap.Basic
import BuildMacros.SourceMap.Mappings
import BuildMacros.SourceMap.Vlq
import BuildMacros.Specifier
import BuildMacros.Splice
import BuildMacros.Template.Elements
import BuildMacros.Template.Hydration
import BuildMacros.Text.Basic
import BuildMacros.Text.CaseRuns
import BuildMacros.Text.Class
import BuildMacros.Text.Ranges
import BuildMacros.Proofs.Specifiers.Climbing
import BuildMacros.Proofs.Specifiers.Extensions
import BuildMacros.Proofs.Keys.FullCalls
import BuildMacros.Proofs.Framing
import BuildMacros.Proofs.Build.FirstFailure
import BuildMacros.Proofs.Registry.Rivals
import BuildMacros.Proofs.Scope.Growth
import BuildMacros.Proofs.Components.Bridges
import BuildMacros.Proofs.Registry.Choice
import BuildMacros.Proofs.Scope.Following
import BuildMacros.Proofs.Scope.Rebinding
import BuildMacros.Proofs.Specifiers.Aliases
import BuildMacros.Proofs.Import.Printing
