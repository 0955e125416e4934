import FloatLang.Cli.FileTree
import FloatLang.Cli.Help
import FloatLang.Cli.Options
import FloatLang.Cli.Run
import FloatLang.Diagnostic
import FloatLang.Double.Basic
import FloatLang.Double.Constant
import FloatLang.Double.Decimal
import FloatLang.Double.Digits
import FloatLang.Double.Display
import FloatLang.Error
import FloatLang.Expr.Basic
import FloatLang.Expr.Reading
import FloatLang.Lowering
import FloatLang.Main
import FloatLang.Session.Basic
import FloatLang.Session.Console
import FloatLang.Session.Loop
import FloatLang.Ssa.Basic
import FloatLang.Ssa.Build
import FloatLang.Ssa.Builtin
import FloatLang.Ssa.Module
import FloatLang.Ssa.Naming
import FloatLang.Ssa.Print
import FloatLang.Ssa.Run
import FloatLang.Text.Alphabetic
import FloatLang.Text.CharClass
import FloatLang.Text.ControlSequence
import FloatLang.Text.Lines
import FloatLang.Text.Numeric
import FloatLang.Text.Position
import FloatLang.Token.Basic
import FloatLang.Token.Scan
import FloatLang.Token.Stream
import FloatLang.Proofs.MapM
import FloatLang.Proofs.NumberEquality
import FloatLang.Proofs.Constants
import FloatLang.Proofs.Store
import FloatLang.Proofs.Translation
import FloatLang.Proofs.Definition
import FloatLang.Proofs.Rollback
import FloatLang.Proofs.Reading
import FloatLang.Proofs.Script
import FloatLang.Proofs.Sources
import FloatLang.Proofs.Perform
import FloatLang.Proofs.WellFormed
import FloatLang.Proofs.Interpreter
import FloatLang.Proofs.Agreement
import FloatLang.Proofs.Boundary
import FloatLang.Proofs.Joining
import FloatLang.Proofs.Separators
import FloatLang.Proofs.Lines
import FloatLang.Proofs.Outcome
import FloatLang.Proofs.Phrase
import FloatLang.Proofs.Tiers
import FloatLang.Proofs.Lexemes
import FloatLang.Proofs.Cutting
import FloatLang.Proofs.RoundTrip
import FloatLang.Proofs.CallTree
import FloatLang.Proofs.Runs
import FloatLang.Proofs.Answers
import FloatLang.Proofs.Progress
import FloatLang.Proofs.Handles
import FloatLang.Proofs.Permanence
import FloatLang.Proofs.Order
import FloatLang.Proofs.Twins
import FloatLang.Proofs.Lockstep
import FloatLang.Proofs.Traceless
import FloatLang.Proofs.Independence
import FloatLang.Proofs.Resolution
import FloatLang.Proofs.Isolation
import FloatLang.Proofs.FullSink
import FloatLang.Proofs.Table
import FloatLang.Proofs.FreshNames
import FloatLang.Proofs.LocalNames
import FloatLang.Proofs.ParamNames
import FloatLang.Proofs.Labels
import FloatLang.Proofs.Faults
import FloatLang.Proofs.Delimiters
import FloatLang.Proofs.Legible
import FloatLang.Proofs.Spelling
import FloatLang.Proofs.Folding
import FloatLang.Proofs.Construct
import FloatLang.Proofs.Lookahead
import FloatLang.Proofs.Earliest
