import KawaiiLang.Literal
import KawaiiLang.Text.Span

namespace KawaiiLang

/-- The operators written in front of their operand. -/
inductive UnaryOp where
  | negate
  | not
  deriving DecidableEq, Inhabited

/-- The operators written between their operands. -/
inductive BinaryOp where
  | add
  | subtract
  | or
  | multiply
  | divide
  | and
  | equal
  | notEqual
  | less
  | lessEqual
  | greater
  | greaterEqual
  deriving DecidableEq, Inhabited

/-- How an operator is written. -/
def BinaryOp.spelling : BinaryOp → String
  | add => "+"
  | subtract => "-"
  | or => "or"
  | multiply => "*"
  | divide => "/"
  | and => "and"
  | equal => "=="
  | notEqual => "!="
  | less => "<"
  | lessEqual => "<="
  | greater => ">"
  | greaterEqual => ">="

/-- An expression. Every node has the span of the text it was read from, which is
    where an error that arises in it is reported. -/
inductive Expr where
  | literal (value : Literal) (span : Span)
  | name (name : String) (span : Span)
  | unary (op : UnaryOp) (operand : Expr) (span : Span)
  | binary (op : BinaryOp) (left right : Expr) (span : Span)
  /-- An expression in parentheses. -/
  | group (inner : Expr) (span : Span)
  | print (args : List Expr) (span : Span)
  /-- Reads a line of input, after writing the prompt if there is one. -/
  | input (prompt : Option String) (span : Span)
  | call (name : String) (args : List Expr) (span : Span)
  deriving Inhabited

/-- The text that an expression was read from. -/
def Expr.span : Expr → Span
  | literal _ span | name _ span | unary _ _ span | binary _ _ _ span | group _ span
  | print _ span | input _ span | call _ _ span => span

end KawaiiLang
