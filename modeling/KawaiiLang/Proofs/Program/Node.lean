import KawaiiLang.Program.Basic

namespace KawaiiLang

/-- An expression or a statement in its place in a program. -/
inductive Node where
  | expression (expression : Expr)
  | statement (statement : Stmt)

/-- The statements that a loop repeats. One of the two words is no statement of its own. -/
def LoopBody.inner : LoopBody → List Stmt
  | breakOnly | continueOnly => []
  | block body => body

namespace Node

/-- The text that a node was read from. -/
def span : Node → Span
  | expression value => value.span
  | statement value => value.span

/-- The nodes just below a node. -/
def parts : Node → List Node
  | expression (.literal ..) | expression (.name ..) | expression (.input ..) => []
  | expression (.unary _ operand _) => [expression operand]
  | expression (.binary _ left right _) => [expression left, expression right]
  | expression (.group inner _) => [expression inner]
  | expression (.print args _) | expression (.call _ args _) => args.map expression
  | statement (.pass _) | statement (.breakLoop _) | statement (.continueLoop _)
  | statement (.input ..) | statement (.update ..) => []
  | statement (.assign _ value _) => [expression value]
  | statement (.returnWith value _) => value.toList.map expression
  | statement (.loop condition body _) => expression condition :: body.inner.map statement
  | statement (.branch condition body elifs otherwise _) =>
    ((condition, body) :: elifs).flatMap
      (fun branch => expression branch.1 :: branch.2.map statement) ++
        (otherwise.getD []).map statement
  | statement (.guarded body handler _) => body.map statement ++ handler.map statement
  | statement (.print args _) | statement (.call _ args _) => args.map expression

/-- The spans of a node and of all nodes below it are as `p` says. -/
inductive All (p : Span → Prop) : Node → Prop where
  | intro {node : Node} (hspan : p node.span) (hparts : ∀ part ∈ node.parts, All p part) :
      All p node

theorem All.span {p : Span → Prop} {node : Node} (hall : node.All p) : p node.span := by
  cases hall with
  | intro hspan => exact hspan

theorem All.part {p : Span → Prop} {node part : Node} (hall : node.All p)
    (hpart : part ∈ node.parts) : part.All p := by
  cases hall with
  | intro _ hparts => exact hparts part hpart

end Node

/-- The spans in an expression are as `p` says. -/
def Expr.All (p : Span → Prop) (value : Expr) : Prop :=
  (Node.expression value).All p

/-- The spans in a statement are as `p` says. -/
def Stmt.All (p : Span → Prop) (statement : Stmt) : Prop :=
  (Node.statement statement).All p

theorem Expr.All.span {p : Span → Prop} {value : Expr} (hall : value.All p) : p value.span :=
  Node.All.span hall

/-- The nodes of a program: the statements of its functions and of its main entry, and all
    that is below them. -/
inductive Program.Contains (program : Program) : Node → Prop where
  | function {function : FunctionDef} {statement : Stmt} (hfunction : function ∈ program.functions)
      (hstatement : statement ∈ function.body) : Contains program (.statement statement)
  | main {main : MainEntry} {statement : Stmt} (hmain : program.main = some main)
      (hstatement : statement ∈ main.body) : Contains program (.statement statement)
  | part {node part : Node} (hnode : Contains program node) (hpart : part ∈ node.parts) :
      Contains program part

/-- The spans of all nodes of a program are as `p` says. -/
structure Program.All (p : Span → Prop) (program : Program) : Prop where
  functions : ∀ function ∈ program.functions, ∀ statement ∈ function.body, statement.All p
  main : ∀ main ∈ program.main, ∀ statement ∈ main.body, statement.All p

theorem Program.All.empty {p : Span → Prop} : Program.All p ⟨[], none⟩ :=
  ⟨nofun, nofun⟩

theorem Program.All.node {p : Span → Prop} {program : Program} (hall : program.All p) {node : Node}
    (hnode : program.Contains node) : node.All p := by
  induction hnode with
  | function hfunction hstatement => exact hall.functions _ hfunction _ hstatement
  | main hmain hstatement => exact hall.main _ hmain _ hstatement
  | part _ hpart ih => exact ih.part hpart

end KawaiiLang
