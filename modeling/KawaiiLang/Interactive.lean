import KawaiiLang.Interpreter
import KawaiiLang.Report
import KawaiiLang.Text.Blank

namespace KawaiiLang

/-- An interactive session: the machine that runs its lines, and what has been
    reported so far. The session reads its lines from the input of the machine and
    writes to the machine's output, just as the lines themselves do. -/
structure Console where
  machine : Machine
  reports : List String := []
  deriving Inhabited

namespace Console

/-- Greets the user. -/
def greeting : String :=
  "NYAA-PL Interpreter v0.1.0\nType 'exit' or press Ctrl+D to quit\n\n"

/-- Asks for a line. -/
def prompt : String :=
  "nyaa> "

/-- Takes leave of the user. -/
def farewell : String :=
  "Sayonara!\n"

/-- Writes a text to the output. -/
def write (console : Console) (text : String) : Console :=
  let (_, output) := console.machine.output.write text
  { console with machine := { console.machine with output } }

/-- Adds lines to what has been reported. -/
def report (console : Console) (lines : List String) : Console :=
  { console with reports := console.reports ++ lines }

/-- Whether a session goes on after a line. -/
inductive Turn where
  | again (console : Console)
  | over (console : Console)
  deriving Inhabited

/-- Runs a line and shows its value or reports its error. -/
def run (settings : Settings) (fuel : Nat) (console : Console) (source : String) : Turn :=
  match console.machine.runLine settings fuel source with
  | (.finished none, machine) => .again { console with machine }
  | (.finished (some value), machine) =>
    .again ({ console with machine }.write (value.display ++ "\n"))
  | (.failed failure, machine) =>
    .again ({ console with machine }.report (failure.toDiagnostic.report source))
  | (.outOfFuel, machine) => .over { console with machine }

/-- Asks for a line and does what it says. Blank lines are passed over, two words
    end the session, and so do the end of the input and a line that is no text. -/
def turn (settings : Settings) (fuel : Nat) (console : Console) : Turn :=
  let console := console.write prompt
  match console.machine.readLine with
  | (none, machine) => .over ({ console with machine }.write "\n")
  | (some line, machine) =>
    let console := { console with machine }
    match line.text? with
    | none => .over (console.report [s!"Error reading input: {StreamFault.notText.reason}"])
    | some text =>
      let source := Text.trimmed text
      if source.isEmpty then .again console
      else if source = "exit" || source = "quit" then .over (console.write farewell)
      else console.run settings fuel source

/-- Takes turns, at most `bound` of them, until the session is over. -/
def turns (settings : Settings) (fuel : Nat) : Nat → Console → Console
  | 0, console => console
  | bound + 1, console =>
    match console.turn settings fuel with
    | .again console => turns settings fuel bound console
    | .over console => console

/-- Holds a whole session. Every turn but the last reads a line, and every line has
    a byte, which bounds the number of turns. -/
def hold (settings : Settings) (fuel : Nat) (input : Input) (output : Sink) : Console :=
  let console : Console := { machine := .start input output }
  turns settings fuel (input.bytes.length + 1) (console.write greeting)

end Console
end KawaiiLang
