import StackIr.Command.Arguments
import StackIr.Command.Basic
import StackIr.Command.Fault
import StackIr.Command.Flag
import StackIr.Command.Help
import StackIr.Command.Inspect
import StackIr.Command.Load
import StackIr.Command.Run
import StackIr.Command.Session
import StackIr.Command.Translate
import StackIr.Decimal.Binary64
import StackIr.Decimal.Layout
import StackIr.Decimal.Read
import StackIr.Decimal.Shortest
import StackIr.Failure
import StackIr.Files.Fault
import StackIr.Files.Output
import StackIr.Files.Tree
import StackIr.Fingerprint.XxHash
import StackIr.FiniteSet
import StackIr.Ir.Assembly
import StackIr.Ir.Constructor
import StackIr.Ir.Dependencies
import StackIr.Ir.Expr
import StackIr.Ir.Fault
import StackIr.Ir.Lower
import StackIr.Ir.Mappings
import StackIr.Ir.Outputs
import StackIr.Ir.References
import StackIr.Ir.Resources
import StackIr.Ir.TypeName
import StackIr.Json.Basic
import StackIr.Log.Category
import StackIr.Log.Entry
import StackIr.Log.Instant
import StackIr.Log.Journal
import StackIr.Log.Layout
import StackIr.Log.Level
import StackIr.Log.Threshold
import StackIr.Main
import StackIr.OrderedMap
import StackIr.Reference.NameTable
import StackIr.Reference.Origin
import StackIr.Reference.Resolver
import StackIr.Report.Dump
import StackIr.Report.FailureText
import StackIr.Report.Functions
import StackIr.Report.Summary
import StackIr.Report.TextTemplate
import StackIr.Substitution.Scan
import StackIr.Substitution.Text
import StackIr.Substitution.Token
import StackIr.Template.Basic
import StackIr.Template.Decode
import StackIr.Template.Fault
import StackIr.Template.LookupTable
import StackIr.Template.Scalar
import StackIr.Template.Value
import StackIr.Text.CamelCase
import StackIr.Text.Cut
import StackIr.Text.LowerCase
import StackIr.Text.Path
import StackIr.Text.Printable
import StackIr.Text.Quoted
import StackIr.Text.Utf8
import StackIr.Yaml.Comment
import StackIr.Yaml.Cursor
import StackIr.Yaml.Encoding
import StackIr.Yaml.Node
import StackIr.Yaml.Node.Build
import StackIr.Yaml.Node.Printer
import StackIr.Yaml.Page
import StackIr.Yaml.Presentation
import StackIr.Yaml.Resolution
import StackIr.Yaml.Timestamp
import StackIr.Yaml.Token
import StackIr.Yaml.Token.Block
import StackIr.Yaml.Token.Gap
import StackIr.Yaml.Token.Plain
import StackIr.Yaml.Token.Properties
import StackIr.Yaml.Token.Queue
import StackIr.Yaml.Token.Quoted
import StackIr.Yaml.Token.Remarks
import StackIr.Yaml.Token.Scanner
import StackIr.Proofs.Assembly.Closure
import StackIr.Proofs.Assembly.Declarations
import StackIr.Proofs.Assembly.Refusals
import StackIr.Proofs.Classification
import StackIr.Proofs.Decoding.Aliases
import StackIr.Proofs.Decoding.Alike
import StackIr.Proofs.Decoding.Enclosing
import StackIr.Proofs.Decoding.Ends
import StackIr.Proofs.Decoding.KeyOrder
import StackIr.Proofs.Decoding.Native
import StackIr.Proofs.Decoding.Repetition
import StackIr.Proofs.Decoding.Sections
import StackIr.Proofs.Decoding.ShortForms
import StackIr.Proofs.Dependencies.Order
import StackIr.Proofs.Dependencies.Places
import StackIr.Proofs.Dependencies.Reachability
import StackIr.Proofs.Dependencies.Ties
import StackIr.Proofs.Failure
import StackIr.Proofs.Failure.Message
import StackIr.Proofs.Files.Tree
import StackIr.Proofs.Imports
import StackIr.Proofs.Json.Meaning
import StackIr.Proofs.Json.Nesting
import StackIr.Proofs.Json.Reading
import StackIr.Proofs.Json.Scanning
import StackIr.Proofs.Json.Source
import StackIr.Proofs.Json.Unambiguous
import StackIr.Proofs.Log.Category
import StackIr.Proofs.Log.Family
import StackIr.Proofs.Log.Levels
import StackIr.Proofs.Log.Threshold
import StackIr.Proofs.LookupTable
import StackIr.Proofs.Lowering.Attributes
import StackIr.Proofs.Lowering.Checks
import StackIr.Proofs.Lowering.Extension
import StackIr.Proofs.Lowering.Judgment
import StackIr.Proofs.Lowering.Outputs
import StackIr.Proofs.Lowering.Parts
import StackIr.Proofs.Lowering.Separation
import StackIr.Proofs.Lowering.Spelling
import StackIr.Proofs.Lowering.Unresolved
import StackIr.Proofs.Lowering.VisitOrder
import StackIr.Proofs.Lowering.WellFormed
import StackIr.Proofs.NameTable
import StackIr.Proofs.OrderedMap
import StackIr.Proofs.References.Agreement
import StackIr.Proofs.References.Outcome
import StackIr.Proofs.Rendering.Agreement
import StackIr.Proofs.Rendering.Block
import StackIr.Proofs.Rendering.Characters
import StackIr.Proofs.Rendering.Flow
import StackIr.Proofs.Rendering.Layout
import StackIr.Proofs.Rendering.Legible
import StackIr.Proofs.Rendering.Nodes
import StackIr.Proofs.Rendering.Scalars
import StackIr.Proofs.Rendering.Values
import StackIr.Proofs.Report.Numbering
import StackIr.Proofs.Resolver
import StackIr.Proofs.Resources.Graph
import StackIr.Proofs.Resources.Instructions
import StackIr.Proofs.Resources.Order
import StackIr.Proofs.Resources.Places
import StackIr.Proofs.Resources.Ties
import StackIr.Proofs.Substitution.Caret
import StackIr.Proofs.Substitution.Concatenation
import StackIr.Proofs.Substitution.RoundTrip
import StackIr.Proofs.Substitution.Scan
import StackIr.Proofs.Substitution.Unclosed
import StackIr.Proofs.Text.Cut
import StackIr.Proofs.Text.LowerCase
import StackIr.Proofs.Text.Path
import StackIr.Proofs.Text.Pieces
import StackIr.Proofs.Text.Utf8
import StackIr.Proofs.Translation.Batch
import StackIr.Proofs.TypeNames
import StackIr.Proofs.Yaml.Building
import StackIr.Proofs.Yaml.Cursor
import StackIr.Proofs.Yaml.Escapes
import StackIr.Proofs.Yaml.Gap
import StackIr.Proofs.Yaml.Input
import StackIr.Proofs.Yaml.Literal
import StackIr.Proofs.Yaml.Plain
import StackIr.Proofs.Yaml.Queue
import StackIr.Proofs.Yaml.Quoted
import StackIr.Proofs.Yaml.Steps
import StackIr.Proofs.Yaml.Tokens
