import KawaiiLang.Diagnostic
import KawaiiLang.Stream.Fault
import KawaiiLang.Value.Basic

namespace KawaiiLang

/-- Why a program cannot go on. -/
inductive RuntimeFault where
  | undefinedVariable (name : String)
  | undefinedFunction (name : String)
  | notFunction (name : String) (type : ValueType)
  | arityMismatch (name : String) (params : List String) (given : Nat)
  | recursionLimit (limit : Nat) (name : String)
  | stream (fault : StreamFault)
  | inputExhausted
  | overflow
  | divisionByZero
  | notUpdatable (op : UpdateOp) (name : String) (type : ValueType)
  | notNegatable (type : ValueType)
  | notApplicable (op : BinaryOp) (left right : ValueType)
  | notComparable (op : BinaryOp) (left right : ValueType)
  deriving DecidableEq, Inhabited

namespace RuntimeFault

/-- The class that a fault is reported under. -/
def kind : RuntimeFault → RuntimeKind
  | undefinedVariable _ | undefinedFunction _ => .undefinedName
  | notFunction .. | notUpdatable .. | notNegatable _ | notApplicable .. | notComparable .. =>
    .typeMismatch
  | arityMismatch .. => .arityMismatch
  | recursionLimit .. => .recursionLimit
  | stream _ => .io
  | inputExhausted => .inputExhausted
  | overflow => .overflow
  | divisionByZero => .divisionByZero

/-- The wording of a runtime error. -/
def message : RuntimeFault → String
  | undefinedVariable name => s!"Undefined variable '{name}'"
  | undefinedFunction name => s!"Undefined function '{name}'"
  | notFunction name type => s!"'{name}' is a {type.name}, not a function"
  | arityMismatch name params given =>
    s!"Function '{name}' expects {params.length} argument(s), got {given}"
  | recursionLimit limit name => s!"Maximum call depth of {limit} exceeded in '{name}'"
  | stream fault => s!"I/O failure: {fault.reason}"
  | inputExhausted => "No more input to read"
  | overflow => "Integer overflow"
  | divisionByZero => "Division by zero"
  | notUpdatable .increment name type => s!"Cannot increment '{name}' of type {type.name}"
  | notUpdatable .decrement name type => s!"Cannot decrement '{name}' of type {type.name}"
  | notNegatable type => s!"Cannot negate {type.name}"
  | notApplicable op left right =>
    s!"Cannot apply '{op.spelling}' to {left.name} and {right.name}"
  | notComparable op left right =>
    s!"Cannot compare {left.name} and {right.name} with '{op.spelling}'"

/-- A hint that goes with a runtime error, where one is given. -/
def help : RuntimeFault → Option String
  | undefinedFunction _ => some
    "Functions are declared before the main entry with: kawaii name(params) \x7b ... \x7d"
  | arityMismatch name params _ =>
    let list := ", ".intercalate params
    some s!"Usage: {name}({list})"
  | divisionByZero => some "Division by zero is not kawaii; check the divisor before dividing."
  | notComparable .. => some
    "Ordering works on two numbers or two strings; booleans only support == and !="
  | _ => none

end RuntimeFault

/-- A fault and the node of the program in which it arose. -/
structure RuntimeError where
  fault : RuntimeFault
  span : Span
  deriving DecidableEq, Inhabited

/-- The error as it is shown; where its span lies is for the caller to say. -/
def RuntimeError.toDiagnostic (error : RuntimeError) : Diagnostic :=
  .runtime error.fault.kind error.span error.fault.message error.fault.help

end KawaiiLang
