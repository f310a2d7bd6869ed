import KawaiiLang.Eval.RuntimeError
import KawaiiLang.Parse.SyntaxError
import KawaiiLang.Token.Lexer

namespace KawaiiLang

/-- Why a text was not run to a good end. -/
inductive Failure where
  | lexical (error : LexError)
  | syntactic (error : SyntaxError)
  | runtime (error : RuntimeError)
  deriving DecidableEq, Inhabited

namespace Failure

/-- The failure as it is shown. -/
def toDiagnostic : Failure → Diagnostic
  | lexical error => error.toDiagnostic
  | syntactic error => error.toDiagnostic
  | runtime error => error.toDiagnostic

/-- The failure as it is shown when `source` is the whole text that was run: then
    also the place of a runtime error is known. -/
def toDiagnosticIn (source : String) : Failure → Diagnostic
  | runtime error => error.toDiagnostic.placedAt (.ofOffset source error.span.start)
  | failure => failure.toDiagnostic

/-- The phase of a run that the failure comes from. -/
def kind : Failure → Diagnostic.Kind
  | lexical _ => .lexical
  | syntactic _ => .syntactic
  | runtime error => .runtime error.fault.kind

/-- Whether the failure arose while the program ran. -/
def isRuntime (failure : Failure) : Bool :=
  match failure.kind with
  | .runtime _ => true
  | _ => false

theorem isRuntime_toDiagnostic (failure : Failure) :
    failure.toDiagnostic.isRuntime = failure.isRuntime := by
  cases failure <;> rfl

theorem isRuntime_iff {failure : Failure} :
    failure.isRuntime = true ↔ ∃ error, failure = .runtime error := by
  cases failure with
  | lexical | syntactic => exact ⟨nofun, nofun⟩
  | runtime error => exact ⟨fun _ => ⟨error, rfl⟩, fun _ => rfl⟩

end Failure
end KawaiiLang
