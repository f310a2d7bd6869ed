import KawaiiLang.Program.Stmt

namespace KawaiiLang

/-- The definition of a function. -/
structure FunctionDef where
  name : String
  params : List String
  body : List Stmt
  span : Span
  deriving Inhabited

/-- What a program runs. -/
inductive MainEntry where
  | block (body : List Stmt)
  | single (statement : Stmt)
  deriving Inhabited

/-- The statements of a main entry in the order in which they run. -/
def MainEntry.body : MainEntry → List Stmt
  | block body => body
  | single statement => [statement]

/-- Function definitions and the main entry behind them. Only the empty text is
    read as a program without a main entry. -/
structure Program where
  functions : List FunctionDef
  main : Option MainEntry
  deriving Inhabited

/-- Whether the program says nothing at all. -/
def Program.isEmpty (program : Program) : Bool :=
  program.functions.isEmpty && program.main.isNone

/-- One line of an interactive session. -/
inductive Line where
  | empty
  | definition (function : FunctionDef)
  | expression (expression : Expr)
  | statements (body : List Stmt)
  deriving Inhabited

end KawaiiLang
