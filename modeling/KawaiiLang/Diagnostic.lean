import KawaiiLang.Text.Span
import KawaiiLang.Text.Position

namespace KawaiiLang

/-- The classes of things that can go wrong while a program runs. -/
inductive RuntimeKind where
  | undefinedName
  | arityMismatch
  | typeMismatch
  | divisionByZero
  | inputExhausted
  | overflow
  | recursionLimit
  | io
  deriving DecidableEq, Inhabited

/-- The name under which a class of runtime errors is reported. -/
def RuntimeKind.name : RuntimeKind → String
  | .undefinedName => "UndefinedName"
  | .arityMismatch => "ArityMismatch"
  | .typeMismatch => "TypeMismatch"
  | .divisionByZero => "DivisionByZero"
  | .inputExhausted => "InputExhausted"
  | .overflow => "Overflow"
  | .recursionLimit => "RecursionLimit"
  | .io => "Io"

/-- The phase of a run that a diagnostic comes from. -/
inductive Diagnostic.Kind where
  | lexical
  | syntactic
  | runtime (kind : RuntimeKind)
  deriving DecidableEq, Inhabited

/-- An error in the form in which it is shown to a user. -/
structure Diagnostic where
  kind : Diagnostic.Kind
  span : Span
  message : String
  help : Option String := none
  position : Option Position := none
  deriving DecidableEq, Inhabited

namespace Diagnostic

/-- A lexical error; it always has a place and never a hint. -/
def lexical (span : Span) (position : Position) (message : String) : Diagnostic :=
  { kind := .lexical, span, message, position := some position }

/-- A syntax error; it always has a place. -/
def syntactic (span : Span) (position : Position) (message : String)
    (help : Option String) : Diagnostic :=
  { kind := .syntactic, span, message, help, position := some position }

/-- A runtime error. It has no place of its own: only the caller knows the text
    that its span refers to. -/
def runtime (kind : RuntimeKind) (span : Span) (message : String)
    (help : Option String) : Diagnostic :=
  { kind := .runtime kind, span, message, help }

/-- The same diagnostic, placed at `position`. -/
def placedAt (diagnostic : Diagnostic) (position : Position) : Diagnostic :=
  { diagnostic with position := some position }

/-- The class of a runtime error, and nothing for the other phases. -/
def runtimeKind? (diagnostic : Diagnostic) : Option RuntimeKind :=
  match diagnostic.kind with
  | .runtime kind => some kind
  | _ => none

/-- Whether the error arose while the program ran. -/
def isRuntime (diagnostic : Diagnostic) : Bool :=
  diagnostic.runtimeKind?.isSome

/-- The diagnostic on one line, with its place if it has one. -/
def render (diagnostic : Diagnostic) : String :=
  let title := match diagnostic.kind with
    | .lexical => "Lexical Error"
    | .syntactic => "Syntax Error"
    | .runtime kind => kind.name
  match diagnostic.position with
  | some position => s!"{title} at {position.render}: {diagnostic.message}"
  | none => s!"{title}: {diagnostic.message}"

end Diagnostic
end KawaiiLang
