import KawaiiLang.Program.Expr

namespace KawaiiLang

/-- The two ways to change a number in place. -/
inductive UpdateOp where
  | increment
  | decrement
  deriving DecidableEq, Inhabited

mutual

/-- A statement. -/
inductive Stmt where
  | pass (span : Span)
  | breakLoop (span : Span)
  | continueLoop (span : Span)
  | assign (target : String) (value : Expr) (span : Span)
  | returnWith (value : Option Expr) (span : Span)
  | loop (condition : Expr) (body : LoopBody) (span : Span)
  /-- The branch of the first condition that holds, or else `otherwise`. -/
  | branch (condition : Expr) (body : List Stmt) (elifs : List (Expr × List Stmt))
      (otherwise : Option (List Stmt)) (span : Span)
  /-- A block, and the handler that takes over if the block raises an error. -/
  | guarded (body handler : List Stmt) (span : Span)
  | print (args : List Expr) (span : Span)
  | input (prompt : Option String) (span : Span)
  | call (name : String) (args : List Expr) (span : Span)
  | update (name : String) (op : UpdateOp) (span : Span)

/-- What a loop runs in each round: a block, or just one of the two words that end
    a round, which then needs no braces. -/
inductive LoopBody where
  | breakOnly
  | continueOnly
  | block (body : List Stmt)

end

/-- The text that a statement was read from. -/
def Stmt.span : Stmt → Span
  | pass span | breakLoop span | continueLoop span | assign _ _ span | returnWith _ span
  | loop _ _ span | branch _ _ _ _ span | guarded _ _ span | print _ span | input _ span
  | call _ _ span | update _ _ span => span

instance : Inhabited Stmt :=
  ⟨.pass default⟩

end KawaiiLang
