import KawaiiLang.Eval.Basic

namespace KawaiiLang

/-- What came of a line of an interactive session. -/
inductive Effect where
  | nothing
  | defined
  | value (value : Value)
  | outcome (outcome : Outcome)
  deriving Inhabited

/-- What is shown of a line: the value of an expression, unless it has none. -/
def Effect.shown : Effect → Option Value
  | .value .unit => none
  | .value result => some result
  | _ => none

namespace Eval

/-- Runs a main entry and then asks the output to pass on what was written, however
    the entry ended. If both fail, the error of the entry is the one that counts. -/
def concluded {α : Type} (body : Eval α) : Eval Unit := fun machine =>
  match body machine with
  | .ok _ machine => flush (.single 0) machine
  | .error reason machine =>
    match flush (.single 0) machine with
    | .ok _ machine | .error _ machine => .error reason machine

/-- Runs a program: defines its functions in order, and runs the main entry in a
    frame of its own inside the global one. A return, break or continue that leaves
    the main entry just ends it. -/
def runProgram (limit fuel : Nat) (program : Program) : Eval Unit := do
  program.functions.forM defineFunction
  match program.main with
  | none => return
  | some main =>
    concluded (inFrame { enclosing := some Machine.globals }
      (executeBody limit fuel main.body))

/-- Does what a line of an interactive session says. -/
def perform (limit fuel : Nat) : Line → Eval Effect
  | .empty => return .nothing
  | .definition function => do
    defineFunction function
    return .defined
  | .expression expression => return .value (← evaluate limit fuel expression)
  | .statements body => return .outcome (← executeBody limit fuel body)

/-- Runs a line of an interactive session and asks the output to pass on what was
    written, except after an expression that failed. Here an output that refuses
    counts before an error of the statements. A line that was given up for want of
    fuel has not ended, and nothing is asked behind it. -/
def runLine (limit fuel : Nat) (line : Line) : Eval (Option Value) := fun machine =>
  match line, perform limit fuel line machine with
  | _, .ok effect machine => (do flush (.single 0); return effect.shown) machine
  | _, .error .outOfFuel machine => .error .outOfFuel machine
  | .expression _, .error reason machine => .error reason machine
  | _, .error reason machine => (do flush (.single 0); throw reason) machine

end Eval
end KawaiiLang
