import Unmangle.Bytes.Utf8
import Unmangle.Engine
import Unmangle.Fault
import Unmangle.Grammar.BackReference
import Unmangle.Grammar.Cursor
import Unmangle.Grammar.Encoding
import Unmangle.Grammar.Expression
import Unmangle.Grammar.Literal
import Unmangle.Grammar.Name
import Unmangle.Grammar.Number
import Unmangle.Grammar.Parse
import Unmangle.Grammar.Rule
import Unmangle.Grammar.State
import Unmangle.Grammar.Template
import Unmangle.Grammar.Token
import Unmangle.Grammar.Type
import Unmangle.Image.Field
import Unmangle.Image.Format
import Unmangle.Image.Symbols
import Unmangle.Log.Entry
import Unmangle.Log.Ring
import Unmangle.Options
import Unmangle.Settings.Basic
import Unmangle.Settings.Read
import Unmangle.Spelling.Canvas
import Unmangle.Spelling.Declarator
import Unmangle.Spelling.HexFloat
import Unmangle.Spelling.Left
import Unmangle.Spelling.Render
import Unmangle.Spelling.Right
import Unmangle.Spelling.Speller
import Unmangle.Store
import Unmangle.Symbol
import Unmangle.Table.Record
import Unmangle.Table.Summary
import Unmangle.Table.Workers
import Unmangle.Tree.Abbreviation
import Unmangle.Tree.Builtin
import Unmangle.Tree.Node
import Unmangle.Tree.Operator
import Unmangle.Tree.Text
import Unmangle.Yaml.Character
import Unmangle.Yaml.Document
import Unmangle.Yaml.Layout
import Unmangle.Yaml.Lexeme
import Unmangle.Yaml.Node
import Unmangle.Yaml.Scalar.Block
import Unmangle.Yaml.Scalar.Gap
import Unmangle.Yaml.Scalar.Plain
import Unmangle.Yaml.Scalar.Quoted
import Unmangle.Yaml.Source
import Unmangle.Yaml.Tag
import Unmangle.Yaml.Token
import Unmangle.Yaml.Value
import Unmangle.Proofs.Comparison.Basic
import Unmangle.Proofs.Comparison.Encoding
import Unmangle.Proofs.Comparison.Expression
import Unmangle.Proofs.Comparison.Literal
import Unmangle.Proofs.Comparison.Pairing
import Unmangle.Proofs.Comparison.Symbol
import Unmangle.Proofs.Engine.History
import Unmangle.Proofs.Grammar.Yields
import Unmangle.Proofs.Safety.Parse
import Unmangle.Proofs.Substitution.AppendOnly
import Unmangle.Proofs.Compression.Component
import Unmangle.Proofs.Compression.Encoder
import Unmangle.Proofs.Compression.Function
import Unmangle.Proofs.Compression.Demangled
import Unmangle.Proofs.Course.Boundary
import Unmangle.Proofs.Course.Encoding
import Unmangle.Proofs.Course.Expression
import Unmangle.Proofs.Course.Literal
import Unmangle.Proofs.Course.Symbol
import Unmangle.Proofs.Engine.Text
import Unmangle.Proofs.Safety.Waiting
import Unmangle.Proofs.Table.Batch
import Unmangle.Proofs.Image.Append
import Unmangle.Proofs.Image.Slices
import Unmangle.Proofs.Image.Field
import Unmangle.Proofs.Image.Layout
import Unmangle.Proofs.Image.RoundTrip
import Unmangle.Proofs.Image.Account
import Unmangle.Proofs.Grammar.Barred
import Unmangle.Proofs.Symbol.Marker
import Unmangle.Proofs.Extension.Basic
import Unmangle.Proofs.Symbol.Underscore
import Unmangle.Proofs.Extension.Token
import Unmangle.Proofs.Extension.Encoding
import Unmangle.Proofs.Spelling.Wrapped
import Unmangle.Proofs.Symbol.Suffix
import Unmangle.Proofs.Engine.Suffixed
import Unmangle.Proofs.Engine.Given
import Unmangle.Proofs.Declarator.Form
import Unmangle.Proofs.Declarator.Halves
import Unmangle.Proofs.Declarator.Shown
import Unmangle.Proofs.Declarator.Stored
import Unmangle.Proofs.Declarator.Outcome
import Unmangle.Proofs.Declarator.Poised
import Unmangle.Proofs.Declarator.Opening
import Unmangle.Proofs.Declarator.Reading
import Unmangle.Proofs.Declarator.Kinds
import Unmangle.Proofs.Declarator.Bare
import Unmangle.Proofs.Declarator.Arguments
import Unmangle.Proofs.Declarator.Template
import Unmangle.Proofs.Declarator.Signature
import Unmangle.Proofs.Declarator.Fill
import Unmangle.Proofs.Declarator.Params
import Unmangle.Proofs.Declarator.Specialization
import Unmangle.Proofs.Declarator.Expansion
import Unmangle.Proofs.Declarator.Spellable
import Unmangle.Proofs.Declarator.Pack
import Unmangle.Proofs.Declarator.Forward
import Unmangle.Proofs.Declarator.ConversionName
import Unmangle.Proofs.Declarator.Conversion
import Unmangle.Proofs.Spelling.Run
import Unmangle.Proofs.Spelling.Chain
import Unmangle.Proofs.Spelling.Gauge
import Unmangle.Proofs.Engine.Output
import Unmangle.Proofs.Literal.Constant
import Unmangle.Proofs.Literal.Value
import Unmangle.Proofs.Literal.Printed
import Unmangle.Proofs.Output.Bracket
import Unmangle.Proofs.Output.Clear
import Unmangle.Proofs.Output.Script
import Unmangle.Proofs.Output.Lookup
import Unmangle.Proofs.Output.Constant
import Unmangle.Proofs.Output.Paired
import Unmangle.Proofs.Output.Halves
import Unmangle.Proofs.Output.Qualified
import Unmangle.Proofs.Insulation.Basic
import Unmangle.Proofs.Insulation.Name
import Unmangle.Proofs.Insulation.Type
import Unmangle.Proofs.Insulation.Expression
import Unmangle.Proofs.Insulation.Encoding
import Unmangle.Proofs.Formation.Node
import Unmangle.Proofs.Formation.Forms
import Unmangle.Proofs.Formation.Token
import Unmangle.Proofs.Formation.Name
import Unmangle.Proofs.Formation.Type
import Unmangle.Proofs.Formation.Expression
import Unmangle.Proofs.Formation.Symbol
import Unmangle.Proofs.Output.Visible
import Unmangle.Proofs.Engine.Balanced
import Unmangle.Proofs.Engine.Stable
import Unmangle.Proofs.Log.Newest
import Unmangle.Proofs.Engine.Delivered
import Unmangle.Proofs.Table.Sharing
import Unmangle.Proofs.Table.Tally
import Unmangle.Proofs.Table.Report
import Unmangle.Proofs.Output.Listing
import Unmangle.Proofs.Progress.Basic
import Unmangle.Proofs.Progress.Grammar
import Unmangle.Proofs.Progress.Bound
import Unmangle.Proofs.Yaml.Scalar
import Unmangle.Proofs.Yaml.Row
import Unmangle.Proofs.Yaml.Outline
import Unmangle.Proofs.Settings.Sheet
import Unmangle.Proofs.Store.Session
import Unmangle.Proofs.Grammar.Ordinal
