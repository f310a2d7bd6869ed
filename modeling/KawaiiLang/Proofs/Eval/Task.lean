import KawaiiLang.Eval.Basic

namespace KawaiiLang

/-- What is being done at some moment of a run. -/
inductive Task where
  | evaluate (expression : Expr)
  | evaluateAll (expressions : List Expr)
  | call (name : String) (args : List Expr) (span : Span)
  | execute (statement : Stmt)
  | run (body : List Stmt)
  /-- Runs the first of the branches whose condition holds. -/
  | choose (branches : List (Expr × List Stmt)) (otherwise : List Stmt)
  /-- Goes through all rounds of a loop that are still to come. -/
  | loop (condition : Expr) (body : LoopBody)

namespace Task

/-- What a task gives if no error is raised. -/
@[reducible] def Result : Task → Type
  | evaluate _ | call .. => Value
  | evaluateAll _ => List Value
  | execute _ | run _ | choose .. | loop .. => Outcome

/-- Does a task, with `fuel` for its parts and at most `rounds` rounds in a loop. -/
def compute (limit fuel rounds : Nat) : (task : Task) → Eval task.Result
  | evaluate expression => Eval.evaluate limit fuel expression
  | evaluateAll expressions => Eval.evaluateAll (Eval.evaluate limit fuel) expressions
  | call name args span =>
    Eval.call limit (Eval.evaluate limit fuel) (Eval.executeBody limit fuel) span name args
  | execute statement => Eval.execute limit fuel statement
  | run body => Eval.executeBody limit fuel body
  | choose branches otherwise =>
    Eval.runBranches (Eval.evaluate limit fuel) (Eval.executeBody limit fuel) otherwise branches
  | loop condition body =>
    Eval.runLoop (Eval.evaluate limit fuel condition)
      (Eval.runLoopBody (Eval.executeBody limit fuel) body) rounds

end Task
end KawaiiLang
