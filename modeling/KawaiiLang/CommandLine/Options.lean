import KawaiiLang.Settings

namespace KawaiiLang.CommandLine

/-- What the arguments of a call ask for. -/
structure Options where
  interactive : Bool := false
  debug : Bool := false
  maxDepth : Option Nat := none
  file : Option String := none
  deriving DecidableEq, Inhabited

/-- Why a call goes no further than its arguments. -/
inductive Stop where
  /-- The arguments make no sense. -/
  | misuse
  /-- Only the version was asked for. -/
  | version
  deriving DecidableEq, Inhabited

namespace Options

/-- The settings of the run that is asked for. -/
def settings (options : Options) : Settings :=
  let base : Settings := { debug := options.debug }
  match options.maxDepth with
  | some depth => base.withMaxCallDepth depth
  | none => base

/-- Asks for an interactive session; only once. -/
def setInteractive (options : Options) : Except Stop Options :=
  if options.interactive then .error .misuse else .ok { options with interactive := true }

/-- Asks for logging; only once. -/
def setDebug (options : Options) : Except Stop Options :=
  if options.debug then .error .misuse else .ok { options with debug := true }

/-- Names the file to run; there is only one. -/
def setFile (options : Options) (path : String) : Except Stop Options :=
  if options.file.isSome then .error .misuse else .ok { options with file := some path }

/-- A call depth: decimal digits, with a sign or without, of a number from 1 to the
    ceiling. -/
def depth? (text : List Char) : Option Nat :=
  let digits := match text with
    | '+' :: digits => digits
    | digits => digits
  let value := Nat.ofDigitChars 10 digits 0
  if !digits.isEmpty && digits.all Char.isDigit && 1 ≤ value && value ≤ Settings.depthCeiling
  then some value else none

/-- Sets the call depth; only once. -/
def setMaxDepth (options : Options) (text : List Char) : Except Stop Options :=
  match options.maxDepth, depth? text with
  | none, some depth => .ok { options with maxDepth := some depth }
  | _, _ => .error .misuse

/-- The options behind a single dash, which may stand close together. -/
def addShort (options : Options) : List Char → Except Stop Options
  | [] => .ok options
  | 'i' :: letters => do (← options.setInteractive).addShort letters
  | 'V' :: _ => .error .version
  | _ :: _ => .error .misuse

/-- All further arguments, none of which is an option. -/
def addFiles (options : Options) : List String → Except Stop Options
  | [] => .ok options
  | path :: paths => do (← options.setFile path).addFiles paths

/-- Takes the arguments from the left; the first that stops the call decides how. -/
def add (options : Options) : List String → Except Stop Options
  | [] => .ok options
  | "--" :: rest => options.addFiles rest
  | "--interactive" :: rest => do (← options.setInteractive).add rest
  | "--debug" :: rest => do (← options.setDebug).add rest
  | "--version" :: _ => .error .version
  | "--max-depth" :: rest =>
    match rest with
    | [] => .error .misuse
    | value :: rest => do (← options.setMaxDepth value.toList).add rest
  | argument :: rest =>
    match argument.toList with
    | '-' :: '-' :: long =>
      if "max-depth=".toList.isPrefixOf long then do
        (← options.setMaxDepth (long.drop "max-depth=".length)).add rest
      else .error .misuse
    | '-' :: c :: letters => do (← options.addShort (c :: letters)).add rest
    | _ => do (← options.setFile argument).add rest

/-- What a whole list of arguments asks for. -/
def ofArguments (arguments : List String) : Except Stop Options :=
  ({} : Options).add arguments

end Options
end KawaiiLang.CommandLine
