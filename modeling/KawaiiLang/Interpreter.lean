import KawaiiLang.Eval.Session
import KawaiiLang.Parse.Program
import KawaiiLang.Settings

namespace KawaiiLang

/-- How a run came to its end. -/
inductive Ending (α : Type) where
  | finished (value : α)
  | failed (failure : Failure)
  /-- The run was given up, because the fuel did not suffice. -/
  | outOfFuel
  deriving DecidableEq, Inhabited

namespace Ending

variable {α : Type}

/-- The end of a computation on a machine, and the machine as it was left. -/
def ofResult : EStateM.Result Interrupt Machine α → Ending α × Machine
  | .ok value machine => (.finished value, machine)
  | .error (.failure failure) machine => (.failed failure, machine)
  | .error .outOfFuel machine => (.outOfFuel, machine)

end Ending

/-- Reads a text as a whole program. -/
def Program.ofSource (source : String) : Except Failure Program := do
  let tokens ← (Token.ofSource source).mapError .lexical
  (Program.ofTokens tokens).mapError .syntactic

/-- Reads a text as one line of an interactive session. -/
def Line.ofSource (source : String) : Except Failure Line := do
  let tokens ← (Token.ofSource source).mapError .lexical
  (Line.ofTokens tokens).mapError .syntactic

namespace Machine

/-- Runs what was read from a text. A text that cannot be read leaves the machine
    as it is. -/
def follow {α β : Type} (machine : Machine) (read : Except Failure α) (run : α → Eval β) :
    Ending β × Machine :=
  match read with
  | .error failure => (.failed failure, machine)
  | .ok value => Ending.ofResult (run value machine)

/-- Runs a text as a program on a machine that may have run others before. -/
def runProgram (machine : Machine) (settings : Settings) (fuel : Nat) (source : String) :
    Ending Unit × Machine :=
  machine.follow (Program.ofSource source) (Eval.runProgram settings.callDepthLimit fuel)

/-- Runs a text as a line of an interactive session. -/
def runLine (machine : Machine) (settings : Settings) (fuel : Nat) (source : String) :
    Ending (Option Value) × Machine :=
  machine.follow (Line.ofSource source) (Eval.runLine settings.callDepthLimit fuel)

/-- Does what a line of an interactive session says, and leaves the output alone. -/
def perform (machine : Machine) (settings : Settings) (fuel : Nat) (source : String) :
    Ending Effect × Machine :=
  machine.follow (Line.ofSource source) (Eval.perform settings.callDepthLimit fuel)

/-- Takes the next line off the input. -/
def readLine (machine : Machine) : Option InputLine × Machine :=
  match machine.input.readLine? with
  | none => (none, machine)
  | some (line, input) => (some line, { machine with input })

end Machine

/-- Runs a text as a program on a new machine. -/
def interpret (settings : Settings) (fuel : Nat) (source : String) (input : Input)
    (output : Sink) : Ending Unit × Machine :=
  (Machine.start input output).runProgram settings fuel source

end KawaiiLang
