import UnitCalc.Decimal.Arithmetic
import UnitCalc.Decimal.Basic
import UnitCalc.Decimal.Digits
import UnitCalc.Decimal.Text
import UnitCalc.Dimension
import UnitCalc.EvalError
import UnitCalc.Expr.Basic
import UnitCalc.Expr.Operator
import UnitCalc.Expr.Parser
import UnitCalc.Line.Basic
import UnitCalc.Line.Parser
import UnitCalc.Main
import UnitCalc.ParseError
import UnitCalc.Program.Answer
import UnitCalc.Program.Basic
import UnitCalc.Program.Report
import UnitCalc.Settings.Basic
import UnitCalc.Settings.Toml
import UnitCalc.Shell.CommandLine
import UnitCalc.Shell.Execution
import UnitCalc.Shell.Files
import UnitCalc.Shell.Input
import UnitCalc.Shell.Session
import UnitCalc.Shell.Text
import UnitCalc.SiPrefix
import UnitCalc.Source.Location
import UnitCalc.Source.Span
import UnitCalc.State.Basic
import UnitCalc.State.Eval
import UnitCalc.State.Run
import UnitCalc.Table
import UnitCalc.Token.Basic
import UnitCalc.Token.Identifier
import UnitCalc.Token.Lexer
import UnitCalc.Toml.Text
import UnitCalc.Toml.Token
import UnitCalc.Unicode.CodeSet
import UnitCalc.Unicode.Grapheme
import UnitCalc.Unicode.GraphemeBreak
import UnitCalc.Unicode.Xid
import UnitCalc.Value.Arithmetic
import UnitCalc.Value.Basic
import UnitCalc.Proofs.Readers
import UnitCalc.Proofs.Grammar
import UnitCalc.Proofs.Except
import UnitCalc.Proofs.GrammarReading
import UnitCalc.Proofs.Lines
import UnitCalc.Proofs.Recognition
import UnitCalc.Proofs.LineGrammar
import UnitCalc.Proofs.RelocatedRun
import UnitCalc.Proofs.RelocatedReaders
import UnitCalc.Proofs.LineByLine
import UnitCalc.Proofs.Spans
import UnitCalc.Proofs.BodySpans
import UnitCalc.Proofs.Reports
import UnitCalc.Proofs.NumberFlow
import UnitCalc.Proofs.DigitLimit
import UnitCalc.Proofs.WellFormed
import UnitCalc.Proofs.Reachable
import UnitCalc.Proofs.Pieces
import UnitCalc.Proofs.Rational
import UnitCalc.Proofs.Ideal
import UnitCalc.Proofs.Exactness
import UnitCalc.Proofs.Numerals
import UnitCalc.Proofs.Spelling
import UnitCalc.Proofs.ReadBack
import UnitCalc.Proofs.Growth
import UnitCalc.Proofs.Lookup
import UnitCalc.Proofs.Printing
import UnitCalc.Proofs.Regrouping
import UnitCalc.Proofs.Echo
import UnitCalc.Proofs.Tiling
import UnitCalc.Proofs.Excerpts
import UnitCalc.Proofs.NodeSpans
import UnitCalc.Proofs.Homogeneity
import UnitCalc.Proofs.Equations
import UnitCalc.Proofs.LexicalRules
import UnitCalc.Proofs.CallDepth
import UnitCalc.Proofs.Mentions
import UnitCalc.Proofs.Independence
import UnitCalc.Proofs.Locations
import UnitCalc.Proofs.ErrorPlaces
import UnitCalc.Proofs.UnitAlgebra
import UnitCalc.Proofs.Powers
import UnitCalc.Proofs.Rounding
import UnitCalc.Proofs.Quotients
import UnitCalc.Proofs.QuotientSigns
import UnitCalc.Proofs.Redeclaration
import UnitCalc.Proofs.Lookahead
import UnitCalc.Proofs.EquationReading
import UnitCalc.Proofs.Blanks
import UnitCalc.Proofs.LineStarts
import UnitCalc.Proofs.CanonicalText
import UnitCalc.Proofs.UnitTexts
import UnitCalc.Proofs.Reset
import UnitCalc.Proofs.CursorRuns
