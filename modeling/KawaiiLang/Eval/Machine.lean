import KawaiiLang.Failure
import KawaiiLang.Program.Basic
import KawaiiLang.Scope.Store
import KawaiiLang.Stream.Input
import KawaiiLang.Stream.Sink

namespace KawaiiLang

/-- All that a running program can read and change. -/
structure Machine where
  store : Store
  /-- The frame in which names are looked up and bound. -/
  scope : FrameId
  /-- How many function bodies are being run. -/
  depth : Nat
  input : Input
  output : Sink
  deriving Inhabited

namespace Machine

/-- The frame of the function definitions. -/
def globals : FrameId :=
  0

/-- The frame in which the lines of an interactive session run. -/
def session : FrameId :=
  1

/-- A machine that has run nothing yet. -/
def start (input : Input) (output : Sink) : Machine :=
  { store := ({} : Store).push {} |>.push { enclosing := some globals },
    scope := session, depth := 0, input, output }

end Machine

/-- How control leaves a statement that raised no error. -/
inductive Outcome where
  | normal
  | returned (value : Value)
  | broke
  | continued
  deriving Inhabited

/-- Why a computation stopped before its end. Running out of fuel is no error of
    the program: with more fuel it would have gone on. -/
inductive Interrupt where
  | failure (failure : Failure)
  | outOfFuel
  deriving DecidableEq, Inhabited

/-- A runtime error stops a computation. -/
@[match_pattern] abbrev Interrupt.fault (error : RuntimeError) : Interrupt :=
  .failure (.runtime error)

/-- A computation on a machine. The machine is kept when the computation is
    interrupted, so nothing that was done is ever undone. -/
abbrev Eval :=
  EStateM Interrupt Machine

namespace Eval

variable {α : Type}

/-- Stops with a fault of the node at `span`. -/
def raise (span : Span) (fault : RuntimeFault) : Eval α :=
  throw (.fault ⟨fault, span⟩)

/-- The result of a computation that may fail, for the node at `span`. -/
def ofExcept (span : Span) : Except RuntimeFault α → Eval α
  | .ok value => pure value
  | .error fault => raise span fault

/-- The value of `name`, if it is bound. -/
def find? (name : String) : Eval (Option Value) := do
  let machine ← get
  return machine.store.get? machine.scope name

/-- Binds `name` in the current frame. -/
def define (name : String) (value : Value) : Eval Unit :=
  modify fun machine =>
    { machine with store := machine.store.define machine.scope name value }

/-- Binds `name` anew in the frame where it is found. -/
def assign (name : String) (value : Value) : Eval Unit :=
  modify fun machine =>
    { machine with
      store := (machine.store.assign? machine.scope name value).getD machine.store }

/-- Defines a function in the global frame; it looks up its free names there. -/
def defineFunction (function : FunctionDef) : Eval Unit :=
  modify fun machine =>
    let (closure, store) :=
      machine.store.close function.name function.params function.body Machine.globals
    { machine with store := store.define Machine.globals function.name (.function closure) }

/-- Runs a computation in a new frame. The frame is given up when the computation
    ends, in whichever way: functions look up their free names in the global frame,
    so no value can lead back to it. -/
@[inline] def inFrame (frame : Frame) (body : Eval α) : Eval α := fun machine =>
  let scope := machine.scope
  let id := machine.store.nextFrame
  match body { machine with store := machine.store.push frame, scope := id } with
  | .ok value machine => .ok value { machine with store := machine.store.pop, scope }
  | .error reason machine => .error reason { machine with store := machine.store.pop, scope }

/-- Runs a computation one call deeper: the depth is counted up in front of it and
    down behind it, in whichever way it ends. -/
@[inline] def deeper (body : Eval α) : Eval α := fun machine =>
  match body { machine with depth := machine.depth + 1 } with
  | .ok value machine => .ok value { machine with depth := machine.depth - 1 }
  | .error reason machine => .error reason { machine with depth := machine.depth - 1 }

/-- Runs `handler` in place of `body` if that ends in a runtime error, from the state
    that it left. Any other failure is passed on. -/
@[inline] def rescue (body handler : Eval α) : Eval α := fun machine =>
  match body machine with
  | .error (.failure failure) machine =>
    if failure.isRuntime then handler machine else .error (.failure failure) machine
  | result => result

/-- Writes a text. -/
def write (span : Span) (text : String) : Eval Unit := fun machine =>
  match machine with
  | { store, scope, depth, input, output } =>
    match output.write text with
    | (.ok _, output) => .ok () { store, scope, depth, input, output }
    | (.error fault, output) =>
      .error (.fault ⟨.stream fault, span⟩) { store, scope, depth, input, output }

/-- Asks the output to pass on what was written. -/
def flush (span : Span) : Eval Unit := fun machine =>
  match machine with
  | { store, scope, depth, input, output } =>
    match output.flush with
    | (.ok _, output) => .ok () { store, scope, depth, input, output }
    | (.error fault, output) =>
      .error (.fault ⟨.stream fault, span⟩) { store, scope, depth, input, output }

/-- Reads a line of input, without the characters that end it. -/
def readLine (span : Span) : Eval Value := do
  let machine ← get
  match machine.input.readLine? with
  | none => raise span .inputExhausted
  | some (line, input) =>
    set { machine with input }
    match line.text? with
    | some text => return .str (InputLine.content text)
    | none => raise span (.stream .notText)

end Eval
end KawaiiLang
