import KawaiiLang.Text.Span
import KawaiiLang.Text.Position
import KawaiiLang.Settings
import KawaiiLang.Diagnostic
import KawaiiLang.Literal
import KawaiiLang.Token.Symbol
import KawaiiLang.Token.Keyword
import KawaiiLang.Token.Basic
import KawaiiLang.Token.Quoted
import KawaiiLang.Token.Lexeme
import KawaiiLang.Token.Lexer
import KawaiiLang.Program.Expr
import KawaiiLang.Program.Stmt
import KawaiiLang.Program.Basic
import KawaiiLang.Parse.SyntaxError
import KawaiiLang.Parse.Cursor
import KawaiiLang.Parse.Expression
import KawaiiLang.Parse.Statement
import KawaiiLang.Parse.Program
import KawaiiLang.Decimal.Dyadic
import KawaiiLang.Decimal.Shortest
import KawaiiLang.Decimal.FloatText
import KawaiiLang.Text.Unprintable
import KawaiiLang.Text.Escaped
import KawaiiLang.Text.Blank
import KawaiiLang.Text.Utf8
import KawaiiLang.Value.Basic
import KawaiiLang.Scope.Bindings
import KawaiiLang.Scope.Store
import KawaiiLang.Scope.Handles
import KawaiiLang.Stream.Fault
import KawaiiLang.Stream.Input
import KawaiiLang.Stream.Sink
import KawaiiLang.Eval.RuntimeError
import KawaiiLang.Failure
import KawaiiLang.Eval.Operator
import KawaiiLang.Eval.Machine
import KawaiiLang.Eval.Basic
import KawaiiLang.Eval.Session
import KawaiiLang.Interpreter
import KawaiiLang.Report
import KawaiiLang.Interactive
import KawaiiLang.CommandLine.Options
import KawaiiLang.CommandLine.Call
import KawaiiLang.Main
import KawaiiLang.Proofs.Grammar.Expression
import KawaiiLang.Proofs.Grammar.Statement
import KawaiiLang.Proofs.Grammar.Program
import KawaiiLang.Proofs.Parse.Cursor
import KawaiiLang.Proofs.Parse.Sound.Expression
import KawaiiLang.Proofs.Parse.Sound.Statement
import KawaiiLang.Proofs.Parse.Sound.Program
import KawaiiLang.Proofs.Parse.Complete.Expression
import KawaiiLang.Proofs.Parse.Complete.Statement
import KawaiiLang.Proofs.Parse.Complete.Program
import KawaiiLang.Proofs.Parse.Program
import KawaiiLang.Proofs.Eval.Frame
import KawaiiLang.Proofs.Eval.Law
import KawaiiLang.Proofs.Eval.Restore
import KawaiiLang.Proofs.Eval.Scoping
import KawaiiLang.Proofs.Eval.Reachable
import KawaiiLang.Proofs.Value.Alike
import KawaiiLang.Proofs.Eval.Simulation
import KawaiiLang.Proofs.Eval.Fuel
import KawaiiLang.Proofs.Eval.Isolation
import KawaiiLang.Proofs.Token.Cuts
import KawaiiLang.Proofs.Token.Tiling
import KawaiiLang.Proofs.Eval.Functions
import KawaiiLang.Proofs.Eval.History
import KawaiiLang.Proofs.Eval.Termination
import KawaiiLang.Proofs.Eval.CallDepth
import KawaiiLang.Proofs.Eval.DepthLimit
import KawaiiLang.Proofs.Eval.Definitions
import KawaiiLang.Proofs.Stream.Sink
import KawaiiLang.Proofs.Eval.Piecewise
import KawaiiLang.Proofs.Lockstep
import KawaiiLang.Proofs.Layout.Syntax
import KawaiiLang.Proofs.Layout.Cursor
import KawaiiLang.Proofs.Layout.Expression
import KawaiiLang.Proofs.Layout.Statement
import KawaiiLang.Proofs.Layout.Program
import KawaiiLang.Proofs.Layout.Store
import KawaiiLang.Proofs.Layout.Eval
import KawaiiLang.Proofs.Layout.Interpreter
import KawaiiLang.Proofs.Token.Classes
import KawaiiLang.Proofs.Token.LongestMatch
import KawaiiLang.Proofs.Token.LeftmostLongest
import KawaiiLang.Proofs.Semantics.Operator
import KawaiiLang.Proofs.Semantics.Rules
import KawaiiLang.Proofs.Semantics.Sound
import KawaiiLang.Proofs.Semantics.Complete
import KawaiiLang.Proofs.Semantics.Agreement
import KawaiiLang.Proofs.Interpreter.Phases
import KawaiiLang.Proofs.Parse.Location.Cursor
import KawaiiLang.Proofs.Parse.Location.Expression
import KawaiiLang.Proofs.Parse.Location.Statement
import KawaiiLang.Proofs.Interpreter.Location
import KawaiiLang.Proofs.Parse.Location.Line
import KawaiiLang.Proofs.Interpreter.Dialogue
import KawaiiLang.Proofs.Eval.Targets
import KawaiiLang.Proofs.Scope.Forest
import KawaiiLang.Proofs.Scope.Handles
import KawaiiLang.Proofs.Eval.Composed
import KawaiiLang.Proofs.Eval.Capacity
import KawaiiLang.Proofs.Eval.Reading
import KawaiiLang.Proofs.Interpreter.Transcript
import KawaiiLang.Proofs.Grammar.Extent
import KawaiiLang.Proofs.Grammar.Nesting
import KawaiiLang.Proofs.Grammar.Placement
import KawaiiLang.Proofs.Parse.Source
import KawaiiLang.Proofs.Parse.Line
import KawaiiLang.Proofs.Parse.Lookahead.Cursor
import KawaiiLang.Proofs.Parse.Lookahead.Expression
import KawaiiLang.Proofs.Parse.Lookahead.Statement
import KawaiiLang.Proofs.Parse.Lookahead.Program
import KawaiiLang.Proofs.Parse.Viable.Cursor
import KawaiiLang.Proofs.Parse.Viable.Expression
import KawaiiLang.Proofs.Parse.Viable.Statement
import KawaiiLang.Proofs.Parse.Viable.Program
import KawaiiLang.Proofs.Parse.Fault
import KawaiiLang.Proofs.Eval.Callable
import KawaiiLang.Proofs.Eval.Arithmetic
import KawaiiLang.Proofs.Eval.Conclusion
import KawaiiLang.Proofs.Parse.Wording
import KawaiiLang.Proofs.Parse.Tape.Session
import KawaiiLang.Proofs.Eval.Signal
import KawaiiLang.Proofs.Eval.Parameters
import KawaiiLang.Proofs.Token.Locality
import KawaiiLang.Proofs.Token.Shift
import KawaiiLang.Proofs.Token.LineBreak
import KawaiiLang.Proofs.Grammar.Follow
import KawaiiLang.Proofs.Grammar.Separator
import KawaiiLang.Proofs.Parse.Semicolon
import KawaiiLang.Proofs.Token.Resumption
import KawaiiLang.Proofs.Token.Spelling
import KawaiiLang.Proofs.Token.StringLiteral
import KawaiiLang.Proofs.Interpreter.PrintedInteger
import KawaiiLang.Proofs.Token.Position
import KawaiiLang.Proofs.Value.Comparison
