import TableSchema.Batch
import TableSchema.Column.Basic
import TableSchema.Column.Declaration
import TableSchema.Column.Grammar
import TableSchema.Column.Resolve
import TableSchema.DataType.Basic
import TableSchema.DataType.Declaration
import TableSchema.DataType.Grammar
import TableSchema.DataType.Keyword
import TableSchema.DataType.Resolve
import TableSchema.Diagnostics
import TableSchema.Error
import TableSchema.Export
import TableSchema.Files
import TableSchema.Grammar.Failure
import TableSchema.Grammar.Parser
import TableSchema.Grammar.Terminal
import TableSchema.Key.Basic
import TableSchema.Key.Declaration
import TableSchema.Key.Grammar
import TableSchema.Key.Resolve
import TableSchema.Proofs.Column.Agreement
import TableSchema.Proofs.Column.Append
import TableSchema.Proofs.Column.Clause
import TableSchema.Proofs.Column.Default
import TableSchema.Proofs.Column.Literal
import TableSchema.Proofs.Column.Mark
import TableSchema.Proofs.Column.Resume
import TableSchema.Proofs.Column.Steady
import TableSchema.Proofs.Column.Summary
import TableSchema.Proofs.DataType.Acceptance
import TableSchema.Proofs.DataType.Agreement
import TableSchema.Proofs.DataType.Append
import TableSchema.Proofs.DataType.Attribute
import TableSchema.Proofs.DataType.Canonical
import TableSchema.Proofs.DataType.Clause
import TableSchema.Proofs.DataType.Consistent
import TableSchema.Proofs.DataType.Declared
import TableSchema.Proofs.DataType.Digits
import TableSchema.Proofs.DataType.Form
import TableSchema.Proofs.DataType.Keyword
import TableSchema.Proofs.DataType.Length
import TableSchema.Proofs.DataType.Rereading
import TableSchema.Proofs.DataType.Resolved
import TableSchema.Proofs.DataType.Resume
import TableSchema.Proofs.DataType.RoundTrip
import TableSchema.Proofs.DataType.Source
import TableSchema.Proofs.DataType.Steady
import TableSchema.Proofs.Diagnostics.Notes
import TableSchema.Proofs.Export.Batch
import TableSchema.Proofs.Export.ColumnNames
import TableSchema.Proofs.Export.Entries
import TableSchema.Proofs.Export.Files
import TableSchema.Proofs.Export.Names
import TableSchema.Proofs.Export.Qualified
import TableSchema.Proofs.Grammar.Agreement
import TableSchema.Proofs.Grammar.Alternative
import TableSchema.Proofs.Grammar.Append
import TableSchema.Proofs.Grammar.Completion
import TableSchema.Proofs.Grammar.Decision
import TableSchema.Proofs.Grammar.Enclosed
import TableSchema.Proofs.Grammar.Forward
import TableSchema.Proofs.Grammar.Likeness
import TableSchema.Proofs.Grammar.Outcome
import TableSchema.Proofs.Grammar.Parenthesis
import TableSchema.Proofs.Grammar.Phrase
import TableSchema.Proofs.Grammar.Resume
import TableSchema.Proofs.Grammar.Seam
import TableSchema.Proofs.Grammar.Terminal
import TableSchema.Proofs.Grammar.Yield
import TableSchema.Proofs.Key.Agreement
import TableSchema.Proofs.Key.Append
import TableSchema.Proofs.Key.Columns
import TableSchema.Proofs.Key.Resume
import TableSchema.Proofs.Key.Steady
import TableSchema.Proofs.Script.Account
import TableSchema.Proofs.Script.Adjacent
import TableSchema.Proofs.Script.Agreement
import TableSchema.Proofs.Script.Concatenation
import TableSchema.Proofs.Script.Contents
import TableSchema.Proofs.Script.Cursor
import TableSchema.Proofs.Script.Findings
import TableSchema.Proofs.Script.LetterCase
import TableSchema.Proofs.Script.Tables
import TableSchema.Proofs.Script.Timely
import TableSchema.Proofs.Script.Types
import TableSchema.Proofs.Table.Agreement
import TableSchema.Proofs.Table.Append
import TableSchema.Proofs.Table.Composition
import TableSchema.Proofs.Table.LetterCase
import TableSchema.Proofs.Table.Names
import TableSchema.Proofs.Table.Query
import TableSchema.Proofs.Table.Rendering
import TableSchema.Proofs.Table.Steady
import TableSchema.Proofs.Text.Case
import TableSchema.Proofs.Text.Encoding
import TableSchema.Proofs.Text.Line
import TableSchema.Proofs.Text.Normal
import TableSchema.Proofs.Text.Numeral
import TableSchema.Proofs.Text.Replace
import TableSchema.Proofs.Text.Separator
import TableSchema.Proofs.Token.Fidelity
import TableSchema.Proofs.Token.Gap
import TableSchema.Proofs.Token.Number
import TableSchema.Proofs.Token.Piece
import TableSchema.Proofs.Token.Reading
import TableSchema.Proofs.Token.Written
import TableSchema.Script.Category
import TableSchema.Script.Grammar
import TableSchema.Script.Resolve
import TableSchema.Script.Statement
import TableSchema.Store
import TableSchema.Table.Basic
import TableSchema.Table.Declaration
import TableSchema.Table.Grammar
import TableSchema.Table.Option
import TableSchema.Table.Resolve
import TableSchema.Text.Case
import TableSchema.Text.Encoding
import TableSchema.Text.Numeral
import TableSchema.Text.Replace
import TableSchema.Text.Strip
import TableSchema.Token.Basic
import TableSchema.Token.Lexeme
import TableSchema.Token.Number
import TableSchema.Token.Piece
import TableSchema.Token.Position
import TableSchema.Token.Quoted
import TableSchema.Unicode.Alphabetic
import TableSchema.Unicode.Blank
import TableSchema.Unicode.Numeric
import TableSchema.Unicode.Ranges
import TableSchema.Unicode.Upper
