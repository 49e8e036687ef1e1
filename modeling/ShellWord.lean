import ShellWord.Arith.Dollar
import ShellWord.Arith.Error
import ShellWord.Arith.Eval
import ShellWord.Arith.Expr
import ShellWord.Arith.Grammar
import ShellWord.Arith.Numeral
import ShellWord.Arith.Operator
import ShellWord.Arith.Paren
import ShellWord.Arith.Span
import ShellWord.Arith.Token
import ShellWord.CommandLine
import ShellWord.Config
import ShellWord.Expand.Arithmetic
import ShellWord.Expand.Command
import ShellWord.Expand.Error
import ShellWord.Expand.Evaluate
import ShellWord.Expand.Word
import ShellWord.Field.Ifs
import ShellWord.Field.Segment
import ShellWord.Files.Pathname
import ShellWord.Files.System
import ShellWord.Files.Tree
import ShellWord.Json.Basic
import ShellWord.Json.Reader
import ShellWord.Machine.Basic
import ShellWord.Machine.Host
import ShellWord.Main
import ShellWord.Param.Case
import ShellWord.Param.Slice
import ShellWord.Pattern.Basic
import ShellWord.Pattern.Bracket
import ShellWord.Pattern.Escape
import ShellWord.Pattern.Group
import ShellWord.Pattern.Translation
import ShellWord.Pattern.Trim
import ShellWord.Proofs.Arith.Discarded
import ShellWord.Proofs.Arith.Formula
import ShellWord.Proofs.Arith.Indirection
import ShellWord.Proofs.Arith.Lexing
import ShellWord.Proofs.Arith.OnePass
import ShellWord.Proofs.Arith.Parsing
import ShellWord.Proofs.Arith.Plain
import ShellWord.Proofs.Arith.Power
import ShellWord.Proofs.Arith.ReadBack
import ShellWord.Proofs.Arith.Semantics
import ShellWord.Proofs.Arith.Targets
import ShellWord.Proofs.Assignment
import ShellWord.Proofs.Balanced
import ShellWord.Proofs.CommandOrigin
import ShellWord.Proofs.Coupling
import ShellWord.Proofs.FieldCut
import ShellWord.Proofs.FieldDecomposition
import ShellWord.Proofs.FieldPattern
import ShellWord.Proofs.FieldPiece
import ShellWord.Proofs.FieldReading
import ShellWord.Proofs.FieldText
import ShellWord.Proofs.Files.Expansion
import ShellWord.Proofs.Files.Name
import ShellWord.Proofs.Files.SelfExpansion
import ShellWord.Proofs.Frame
import ShellWord.Proofs.Invariant
import ShellWord.Proofs.Joining
import ShellWord.Proofs.Mark
import ShellWord.Proofs.Named
import ShellWord.Proofs.Noted
import ShellWord.Proofs.Nounset
import ShellWord.Proofs.Numeral
import ShellWord.Proofs.NumeralBases
import ShellWord.Proofs.Operand
import ShellWord.Proofs.Parameter
import ShellWord.Proofs.Pattern.BracketEntries
import ShellWord.Proofs.Pattern.BracketItems
import ShellWord.Proofs.Pattern.BracketListing
import ShellWord.Proofs.Pattern.BracketScan
import ShellWord.Proofs.Pattern.Expression
import ShellWord.Proofs.Pattern.Extglob
import ShellWord.Proofs.Pattern.Inactive
import ShellWord.Proofs.Pattern.Literal
import ShellWord.Proofs.Pattern.Negation
import ShellWord.Proofs.Pattern.Replace
import ShellWord.Proofs.Pattern.Shape
import ShellWord.Proofs.Pattern.Trim
import ShellWord.Proofs.PositionalSlice
import ShellWord.Proofs.QuotedOperand
import ShellWord.Proofs.QuotedParts
import ShellWord.Proofs.Quoting
import ShellWord.Proofs.Regex.Matching
import ShellWord.Proofs.Regex.Reading
import ShellWord.Proofs.Regex.Syntax
import ShellWord.Proofs.Run
import ShellWord.Proofs.Simulation
import ShellWord.Proofs.Slice
import ShellWord.Proofs.SoftFailure
import ShellWord.Proofs.Span
import ShellWord.Proofs.SpanReplacement
import ShellWord.Proofs.SpanStability
import ShellWord.Proofs.Splice
import ShellWord.Proofs.SubstitutionPaths
import ShellWord.Proofs.Substitutions
import ShellWord.Proofs.TextOrder
import ShellWord.Proofs.VariableGrowth
import ShellWord.Proofs.WordJson
import ShellWord.Proofs.Written
import ShellWord.Regex.Basic
import ShellWord.Regex.CharSet
import ShellWord.Regex.Engine
import ShellWord.Regex.Reader
import ShellWord.Run
import ShellWord.Script.Action
import ShellWord.Script.Basic
import ShellWord.Script.Builtin
import ShellWord.Script.Format
import ShellWord.Script.Grammar
import ShellWord.Script.Lexer
import ShellWord.Script.Perform
import ShellWord.Session.Basic
import ShellWord.Session.Lookup
import ShellWord.Session.Options
import ShellWord.Session.Tilde
import ShellWord.Session.Variables
import ShellWord.Text.Basic
import ShellWord.Text.Blank
import ShellWord.Text.Case
import ShellWord.Text.CaseTable
import ShellWord.Text.Reader
import ShellWord.Text.Utf8
import ShellWord.Toml.Basic
import ShellWord.Toml.Reader
import ShellWord.Toml.Scalar
import ShellWord.Word.Basic
import ShellWord.Word.Escape
import ShellWord.Word.Form
import ShellWord.Word.Json
import ShellWord.Word.Source
