import Adl.Base64
import Adl.Command.Run
import Adl.Command.Syntax
import Adl.Compile.Compilation
import Adl.Compile.Export
import Adl.Compile.Library
import Adl.Config
import Adl.Error
import Adl.Files.Access
import Adl.Files.Loader
import Adl.Files.Path
import Adl.Files.Tree
import Adl.Json.Basic
import Adl.Json.Decode
import Adl.Json.Node
import Adl.Literal
import Adl.Main
import Adl.Model.Basic
import Adl.Model.Doc
import Adl.Model.Imports
import Adl.Model.Primitive
import Adl.Model.Resolve
import Adl.Name
import Adl.Number.Double
import Adl.Number.Layout
import Adl.Number.Numeral
import Adl.Number.Shortest
import Adl.Prelude
import Adl.Proofs.Base64
import Adl.Proofs.Compile.Compiled
import Adl.Proofs.Compile.Constructed
import Adl.Proofs.Compile.Embedded
import Adl.Proofs.Compile.ExportedTypes
import Adl.Proofs.Compile.Integers
import Adl.Proofs.Compile.Numbers
import Adl.Proofs.Compile.Phases
import Adl.Proofs.Compile.Separate
import Adl.Proofs.Compile.Sources
import Adl.Proofs.Files.Loading
import Adl.Proofs.Files.Paths
import Adl.Proofs.Files.Places
import Adl.Proofs.Files.Writing
import Adl.Proofs.Json.Parsing
import Adl.Proofs.Json.Reading
import Adl.Proofs.Json.Same
import Adl.Proofs.Model.Annotations
import Adl.Proofs.Model.Documentation
import Adl.Proofs.Model.ImportCycles
import Adl.Proofs.Model.ImportErrors
import Adl.Proofs.Model.ImportOrder
import Adl.Proofs.Model.Indexed
import Adl.Proofs.Model.Keys
import Adl.Proofs.Model.Names
import Adl.Proofs.Model.Outline
import Adl.Proofs.Model.References
import Adl.Proofs.Model.Resolved
import Adl.Proofs.Model.Scopes
import Adl.Proofs.Model.Shared
import Adl.Proofs.Model.UnknownNames
import Adl.Proofs.Number.Layout
import Adl.Proofs.Number.Numeral
import Adl.Proofs.Number.Single
import Adl.Proofs.Schema.Catalog
import Adl.Proofs.Schema.Faithful
import Adl.Proofs.Schema.RoundTrip
import Adl.Proofs.Source.Lockstep
import Adl.Proofs.Source.Notes
import Adl.Proofs.Source.Progress
import Adl.Proofs.Source.RoundTrip
import Adl.Proofs.Source.Strings
import Adl.Proofs.Source.Taken
import Adl.Proofs.Source.WellFormed
import Adl.Proofs.Success
import Adl.Proofs.Target.Boxes
import Adl.Proofs.Target.Built
import Adl.Proofs.Target.ByteVectors
import Adl.Proofs.Target.Comments
import Adl.Proofs.Target.Containment
import Adl.Proofs.Target.ImportNames
import Adl.Proofs.Target.Imports
import Adl.Proofs.Target.Markers
import Adl.Proofs.Target.Outputs
import Adl.Proofs.Target.Placed
import Adl.Proofs.Target.RawStrings
import Adl.Proofs.Target.Reachability
import Adl.Proofs.Target.RelativePaths
import Adl.Proofs.Target.RustIdentifiers
import Adl.Proofs.Target.RustNames
import Adl.Proofs.Target.RustRenaming
import Adl.Proofs.Target.TypeScriptNames
import Adl.Proofs.Target.TypeScriptRenaming
import Adl.Proofs.Target.UnionValues
import Adl.Proofs.Text.NameStyle
import Adl.Proofs.Text.Quoted
import Adl.Proofs.Text.SnakeCase
import Adl.Proofs.Text.Split
import Adl.Proofs.Token.Lexeme
import Adl.Proofs.Token.Lossless
import Adl.Proofs.Token.Spacing
import Adl.Proofs.Types.Acyclic
import Adl.Proofs.Types.AliasPaths
import Adl.Proofs.Types.Checked
import Adl.Proofs.Types.Composition
import Adl.Proofs.Types.Expansion
import Adl.Proofs.Types.Faults
import Adl.Proofs.Types.FullExpansion
import Adl.Proofs.Types.HeadForm
import Adl.Proofs.Types.Renaming
import Adl.Proofs.Types.Substitution
import Adl.Proofs.Value.Collections
import Adl.Proofs.Value.Completion
import Adl.Proofs.Value.Contained
import Adl.Proofs.Value.Declared
import Adl.Proofs.Value.Denotes
import Adl.Proofs.Value.Distinct
import Adl.Proofs.Value.Exact
import Adl.Proofs.Value.Fits
import Adl.Proofs.Value.Generic
import Adl.Proofs.Value.Links
import Adl.Proofs.Value.Memoized
import Adl.Proofs.Value.Nesting
import Adl.Proofs.Value.Normalization
import Adl.Proofs.Value.Parts
import Adl.Proofs.Value.Reading
import Adl.Proofs.Value.Renaming
import Adl.Proofs.Value.RoundTrip
import Adl.Proofs.Value.Simulation
import Adl.Proofs.Value.StoredDefaults
import Adl.Proofs.Value.Termination
import Adl.Schema.Catalog
import Adl.Schema.Decl
import Adl.Schema.Decode
import Adl.Schema.Encode
import Adl.Schema.Handle
import Adl.Source.Module
import Adl.Source.Parser
import Adl.Target.Basic
import Adl.Target.Containment
import Adl.Target.Options
import Adl.Target.RustItem
import Adl.Target.RustText
import Adl.Target.RustUnit
import Adl.Target.TypeScriptItem
import Adl.Target.TypeScriptText
import Adl.Target.TypeScriptUnit
import Adl.Target.Unit
import Adl.Text.Blank
import Adl.Text.Digit
import Adl.Text.Escaped
import Adl.Text.Hidden
import Adl.Text.LetterCase
import Adl.Text.Listed
import Adl.Text.NameStyle
import Adl.Text.Quoted
import Adl.Text.Range
import Adl.Text.Split
import Adl.Text.Word
import Adl.Token.Basic
import Adl.Token.Lexeme
import Adl.Types.Check
import Adl.Types.Expand
import Adl.Types.Graph
import Adl.Types.Instantiate
import Adl.Value.Basic
import Adl.Value.Defaults
import Adl.Value.Normalize
