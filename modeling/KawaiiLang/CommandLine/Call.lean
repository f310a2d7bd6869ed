import KawaiiLang.CommandLine.Options
import KawaiiLang.Interactive

namespace KawaiiLang.CommandLine

/-- What is found under the path of a script. -/
inductive Script where
  | missing
  /-- Something is there, but its content cannot be had. -/
  | unreadable (reason : String)
  | content (bytes : ByteArray)
  deriving Inhabited

/-- A directory in the place of a script. -/
def Script.directory : Script :=
  .unreadable "Is a directory (os error 21)"

/-- What a call leaves behind. -/
structure Result where
  exitCode : UInt8
  output : ByteArray
  /-- The lines of the error output, as far as they are fixed. -/
  reports : List String
  deriving Inhabited

namespace Result

/-- A call that wrote nothing. -/
def silent (exitCode : UInt8) (reports : List String) : Result :=
  ⟨exitCode, .empty, reports⟩

/-- The exit code for a failure: 70 if the program ran into it, and 65 if the text
    could not be read as a program. -/
def codeOf (diagnostic : Diagnostic) : UInt8 :=
  if diagnostic.isRuntime then 70 else 65

end Result

/-- Runs the text of a script. -/
def runSource (settings : Settings) (fuel : Nat) (source : String) (input : Input) : Result :=
  match interpret settings fuel source input {} with
  | (.finished _, machine) => ⟨0, machine.output.kept, []⟩
  | (.failed failure, machine) =>
    let diagnostic := failure.toDiagnosticIn source
    ⟨Result.codeOf diagnostic, machine.output.kept, diagnostic.report source⟩
  | (.outOfFuel, machine) => ⟨70, machine.output.kept, []⟩

/-- Runs what is found under `path`. -/
def runScript (settings : Settings) (fuel : Nat) (path : String) (script : Script)
    (input : Input) : Result :=
  match script with
  | .missing => .silent 1 [s!"Error: File '{path}' not found"]
  | .unreadable reason => .silent 1 [s!"Error reading file '{path}': {reason}"]
  | .content bytes =>
    match String.fromUTF8? bytes with
    | some source => runSource settings fuel source input
    | none => .silent 1 [s!"Error reading file '{path}': {StreamFault.notText.reason}"]

/-- Holds an interactive session, which always ends well. -/
def runInteractive (settings : Settings) (fuel : Nat) (input : Input) : Result :=
  let console := Console.hold settings fuel input {}
  ⟨0, console.machine.output.kept, console.reports⟩

/-- What a call with the given options does, if `script` is found under the path that
    they name. Asking for a session goes before naming a file. -/
def Options.run (options : Options) (fuel : Nat) (script : Script) (input : Input) : Result :=
  match options.file, options.interactive with
  | some path, false => runScript options.settings fuel path script input
  | _, _ => runInteractive options.settings fuel input

/-- What a call does that goes no further than its arguments. -/
def Stop.result : Stop → Result
  | misuse => .silent 2 []
  | version => ⟨0, "nyaa 0.1.0\n".toUTF8, []⟩

/-- What a call does with all it is given. -/
def call (fuel : Nat) (arguments : List String) (find : String → Script) (input : Input) :
    Result :=
  match Options.ofArguments arguments with
  | .error stop => stop.result
  | .ok options => options.run fuel ((options.file.map find).getD .missing) input

end KawaiiLang.CommandLine
