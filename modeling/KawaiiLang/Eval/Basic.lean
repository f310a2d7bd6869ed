import KawaiiLang.Eval.Machine
import KawaiiLang.Eval.Operator

namespace KawaiiLang.Eval

/-- Prints values on a line of their own, with blanks between them. The end of the
    line is written by itself. -/
def printValues (span : Span) (values : List Value) : Eval Unit := do
  write span (" ".intercalate (values.map Value.display))
  write span "\n"

/-- Reads a line of input. The prompt is on its way before anything is read. -/
def readInput (span : Span) (prompt : Option String) : Eval Value := do
  if let some text := prompt then
    write span text
  flush span
  readLine span

/-- Changes the number under `name` in the frame where the name is found. -/
def updateName (span : Span) (name : String) (op : UpdateOp) : Eval Unit := do
  match ← find? name with
  | none => raise span (.undefinedVariable name)
  | some current => assign name (← ofExcept span (op.apply name current))

/-- The function under `name`, if it takes `given` arguments. -/
def callee (span : Span) (name : String) (given : Nat) : Eval Closure := do
  match ← find? name with
  | none => raise span (.undefinedFunction name)
  | some (.function closure) =>
    if closure.params.length = given then
      return closure
    else
      raise span (.arityMismatch name closure.params given)
  | some other => raise span (.notFunction name other.type)

/-- Evaluates expressions from the first to the last. -/
@[specialize] def evaluateAll (evaluate : Expr → Eval Value) : List Expr → Eval (List Value)
  | [] => return []
  | first :: rest => do
    let value ← evaluate first
    return value :: (← evaluateAll evaluate rest)

/-- Runs statements one after the other, up to the first that does not end
    normally. -/
@[specialize] def runBody (execute : Stmt → Eval Outcome) : List Stmt → Eval Outcome
  | [] => return .normal
  | first :: rest => do
    match ← execute first with
    | .normal => runBody execute rest
    | outcome => return outcome

/-- Runs the body of the first branch whose condition holds, or else `otherwise`. -/
@[specialize] def runBranches (evaluate : Expr → Eval Value) (run : List Stmt → Eval Outcome)
    (otherwise : List Stmt) : List (Expr × List Stmt) → Eval Outcome
  | [] => run otherwise
  | (condition, body) :: rest => do
    if (← evaluate condition).isTruthy then
      run body
    else
      runBranches evaluate run otherwise rest

/-- Runs a loop for at most `bound` rounds. The condition is tested before each
    round; a break or continue in the body goes no further than this loop. -/
@[specialize] def runLoop (condition : Eval Value) (body : Eval Outcome) :
    Nat → Eval Outcome
  | 0 => throw .outOfFuel
  | bound + 1 => do
    if (← condition).isTruthy then
      match ← body with
      | .normal | .continued => runLoop condition body bound
      | .broke => return .normal
      | .returned value => return .returned value
    else
      return .normal

/-- One round of a loop. -/
@[inline] def runLoopBody (run : List Stmt → Eval Outcome) : LoopBody → Eval Outcome
  | .breakOnly => return .broke
  | .continueOnly => return .continued
  | .block body => run body

/-- Runs the body of a function on its arguments, in a frame of its own around the
    frame of its definition. Ending in any way but a return gives no value. -/
@[inline] def enter (limit : Nat) (run : List Stmt → Eval Outcome) (span : Span)
    (name : String) (closure : Closure) (args : List Value) : Eval Value := do
  if limit ≤ (← get).depth then
    raise span (.recursionLimit limit name)
  else
    let bindings := Bindings.empty.insertAll (closure.params.zip args)
    match ← deeper (inFrame ⟨bindings, some closure.home⟩ (run closure.body)) with
    | .returned value => return value
    | _ => return .unit

/-- Calls the function under `name`. That it is one, and takes as many arguments, is
    checked before the arguments are evaluated, and the call depth after that. -/
@[inline] def call (limit : Nat) (evaluate : Expr → Eval Value)
    (run : List Stmt → Eval Outcome) (span : Span) (name : String) (args : List Expr) :
    Eval Value := do
  let closure ← callee span name args.length
  let values ← evaluateAll evaluate args
  enter limit run span name closure values

/-- Evaluates an expression, given how its parts are evaluated and how the bodies of
    functions run. -/
@[inline] def evaluateWith (limit : Nat) (evaluate : Expr → Eval Value)
    (run : List Stmt → Eval Outcome) : Expr → Eval Value
  | .literal value _ => return .ofLiteral value
  | .name name span => do
    match ← find? name with
    | some value => return value
    | none => raise span (.undefinedVariable name)
  | .unary op operand span => do
    let value ← evaluate operand
    ofExcept span (op.apply value)
  | .binary op left right span => do
    let first ← evaluate left
    let second ← evaluate right
    ofExcept span (op.apply first second)
  | .group inner _ => evaluate inner
  | .print args span => do
    let values ← evaluateAll evaluate args
    printValues span values
    return .unit
  | .input prompt span => readInput span prompt
  | .call name args span => call limit evaluate run span name args

/-- Runs a statement, given how its parts are evaluated and run. Loops go through at
    most `rounds` rounds. -/
@[inline] def executeWith (limit rounds : Nat) (evaluate : Expr → Eval Value)
    (run : List Stmt → Eval Outcome) : Stmt → Eval Outcome
  | .pass _ => return .normal
  | .breakLoop _ => return .broke
  | .continueLoop _ => return .continued
  | .assign target value _ => do
    define target (← evaluate value)
    return .normal
  | .returnWith none _ => return .returned .unit
  | .returnWith (some value) _ => return .returned (← evaluate value)
  | .loop condition body _ => runLoop (evaluate condition) (runLoopBody run body) rounds
  | .branch condition body elifs otherwise _ =>
    runBranches evaluate run (otherwise.getD []) ((condition, body) :: elifs)
  | .guarded body handler _ => rescue (run body) (run handler)
  | .print args span => do
    let values ← evaluateAll evaluate args
    printValues span values
    return .normal
  | .input prompt span => do
    let _ ← readInput span prompt
    return .normal
  | .call name args span => do
    let _ ← call limit evaluate run span name args
    return .normal
  | .update name op span => do
    updateName span name op
    return .normal

mutual

/-- Evaluates an expression in a machine whose calls nest at most `limit` deep.
    `fuel` bounds how deep expressions, statements and calls nest and how many
    rounds a loop goes; a computation that finishes does so with any larger amount
    of it, and in the same way. -/
def evaluate (limit : Nat) : Nat → Expr → Eval Value
  | 0 => fun _ => throw .outOfFuel
  | fuel + 1 => evaluateWith limit (evaluate limit fuel) (runBody (execute limit fuel))

/-- Runs a statement; `limit` and `fuel` are as for expressions. -/
def execute (limit : Nat) : Nat → Stmt → Eval Outcome
  | 0 => fun _ => throw .outOfFuel
  | fuel + 1 =>
    executeWith limit fuel (evaluate limit fuel) (runBody (execute limit fuel))

end

theorem evaluate_zero (limit : Nat) (expression : Expr) :
    evaluate limit 0 expression = throw .outOfFuel := by
  rw [evaluate]

theorem evaluate_succ (limit fuel : Nat) (expression : Expr) :
    evaluate limit (fuel + 1) expression =
      evaluateWith limit (evaluate limit fuel) (runBody (execute limit fuel)) expression := by
  rw [evaluate]

theorem execute_zero (limit : Nat) (statement : Stmt) :
    execute limit 0 statement = throw .outOfFuel := by
  rw [execute]

theorem execute_succ (limit fuel : Nat) (statement : Stmt) :
    execute limit (fuel + 1) statement =
      executeWith limit fuel (evaluate limit fuel) (runBody (execute limit fuel)) statement := by
  rw [execute]

/-- Runs the statements of a body. -/
def executeBody (limit fuel : Nat) (body : List Stmt) : Eval Outcome :=
  runBody (execute limit fuel) body

end KawaiiLang.Eval
