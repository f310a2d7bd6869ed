import Mathlib
import KawaiiLang.Proofs.Eval.Functions
import KawaiiLang.Proofs.Eval.Trace
import KawaiiLang.Settings

namespace KawaiiLang

/-- While `task` is being done from `machine` on, there is a moment at which a call begins that
    ends in an error for lying too deep, whether or not the error is caught. -/
inductive Task.Overruns (limit : Nat) : Task → Machine → Prop where
  | raised {name : String} {args : List Expr} {span : Span} {machine next : Machine} {fuel : Nat}
      {error : RuntimeError}
      (hraised : Eval.call limit (Eval.evaluate limit fuel) (Eval.executeBody limit fuel) span name
        args machine = .error (.fault error) next)
      (hkind : error.fault.kind = .recursionLimit) : Overruns limit (.call name args span) machine
  | body {name : String} {args : List Expr} {span : Span} {machine next : Machine} {fuel : Nat}
      {closure : Closure} {values : List Value}
      (hclosure : machine.store.get? machine.scope name = some (.function closure))
      (harity : closure.params.length = args.length)
      (hargs : Eval.evaluateAll (Eval.evaluate limit fuel) args machine = .ok values next)
      (hdepth : next.depth < limit)
      (hbody : Overruns limit (.run closure.body) (next.entered closure values)) :
      Overruns limit (.call name args span) machine
  | part {task part : Task} {machine next : Machine}
      (hpart : Eval.Part limit task machine part next) (hoverruns : Overruns limit part next) :
      Overruns limit task machine

/-- The main entry of the program overruns the limit, once its functions are defined. -/
def Program.Overruns (limit : Nat) (program : Program) (machine : Machine) : Prop :=
  ∃ main, program.main = some main ∧ (Task.run main.body).Overruns limit
    ((machine.definedAll program.functions).inner Machine.mainFrame)

namespace Eval

variable {limit limit' : Nat}

theorem traced_not_overruns (hlimit : limit ≤ limit') :
    Traced limit limit' fun task machine => ¬ task.Overruns limit machine where
  part hquiet hpart := fun hoverruns => hquiet (.part hpart hoverruns)
  body hquiet hclosure harity hargs hdepth :=
    fun hoverruns => hquiet (.body hclosure harity hargs hdepth hoverruns)
  guard hquiet hclosure harity hargs := by
    have hdepth := Nat.lt_of_not_le fun hdeep =>
      hquiet (.raised ((call_of_get hclosure harity hargs).trans (enter_of_limit_le hdeep)) rfl)
    exact .inr ⟨hdepth, Nat.lt_of_lt_of_le hdepth hlimit⟩

/-- Where no call lies too deep, a higher limit makes no difference. -/
theorem agreeOn_not_overruns (hlimit : limit ≤ limit') (fuel : Nat) :
    AgreeOn (fun task machine => ¬ task.Overruns limit machine) limit fuel
      (evaluate limit' fuel) (execute limit' fuel) := by
  have htraced := traced_not_overruns hlimit
  induction fuel with
  | zero =>
    constructor <;> intros
    · rw [evaluate_zero, evaluate_zero]
    · rw [execute_zero, execute_zero]
  | succ fuel ih =>
    constructor
    · intro expression machine hquiet
      rw [evaluate_succ limit', ← htraced.evaluateWith_eq ih hquiet]
    · intro statement machine hquiet
      rw [execute_succ limit', ← htraced.executeWith_eq ih hquiet]

end Eval

open Eval

/-- A program that is run with a limit of nested calls which none of its calls exceeds, not even
    one whose error would be caught, does the same with any higher limit: it comes to the same
    end, if to any, and leaves the same machine behind, what it has written and what it has left
    of its input included. -/
theorem Program.runProgram_eq_of_not_overruns {settings settings' : Settings} {program : Program}
    {input : Input} {output : Sink} (hlimit : settings.callDepthLimit ≤ settings'.callDepthLimit)
    (hquiet : ¬ program.Overruns settings.callDepthLimit (.start input output)) (fuel : Nat) :
    runProgram settings'.callDepthLimit fuel program (.start input output) =
      runProgram settings.callDepthLimit fuel program (.start input output) := by
  cases hmain : program.main with
  | none =>
    rw [runProgram_of_main_eq_none _ fuel _ hmain, runProgram_of_main_eq_none _ fuel _ hmain]
  | some main =>
    have hbody := (traced_not_overruns hlimit).runBody_eq (agreeOn_not_overruns hlimit fuel)
      fun hoverruns => hquiet ⟨main, hmain, hoverruns⟩
    rw [runProgram_of_main_eq_some _ fuel _ hmain, runProgram_of_main_eq_some _ fuel _ hmain]
    exact concluded_inFrame_congr hbody.symm

/-- A program that calls a function which calls none. -/
def Program.callsConstant : Program :=
  { functions := [.constant "f" 1], main := some (.single (.call "f" [] ⟨29, 32⟩)) }

theorem Program.not_overruns_callsConstant : ¬ callsConstant.Overruns 1 (.start {} {}) := by
  let machine := ((Machine.start {} {}).definedAll callsConstant.functions).inner Machine.mainFrame
  have hfound : machine.store.get? machine.scope "f" =
      some (.function ((FunctionDef.constant "f" 1).closure 0)) := by cbv
  rintro ⟨main, hmain, hoverruns⟩
  cases hmain
  -- The main entry has no parts but the call, and the body of the function makes no call.
  cases hoverruns with | part hpart hoverruns =>
  cases hpart with
  | otherStatements => cases hoverruns with | part hpart => cases hpart
  | firstStatement =>
  cases hoverruns with | part hpart hoverruns =>
  cases hpart
  cases hoverruns with
  | @raised _ _ _ _ _ fuel _ hraised _ =>
    have hdepth : machine.depth < 1 := by cbv
    have hentered : call 1 (evaluate 1 fuel) (executeBody 1 fuel) ⟨29, 32⟩ "f" [] machine = _ :=
      (call_of_get hfound rfl rfl).trans (enter_of_lt hdepth)
    -- The body ends in its value, given the fuel to reach it.
    rcases fuel with _ | _ | fuel <;> cases hentered.symm.trans hraised
  | part hpart hoverruns =>
    cases hpart
    cases hoverruns with | part hpart => cases hpart
  | body hclosure _ _ _ hbody =>
    cases hfound.symm.trans hclosure
    cases hbody with | part hpart hoverruns =>
    cases hpart with
    | otherStatements => cases hoverruns with | part hpart => cases hpart
    | firstStatement =>
    cases hoverruns with | part hpart hoverruns =>
    cases hpart
    cases hoverruns with | part hpart => cases hpart

/-- With a limit of two calls instead of one, the program comes to the same end. -/
theorem Program.runProgram_callsConstant_eq :
    ¬ callsConstant.Overruns 1 (.start {} {}) ∧
      runProgram 2 9 callsConstant (.start {} {}) = runProgram 1 9 callsConstant (.start {} {}) := by
  have hlimit : Settings.callDepthLimit { maxCallDepth := 1 } ≤
      Settings.callDepthLimit { maxCallDepth := 2 } := by decide
  have hquiet := not_overruns_callsConstant
  exact ⟨hquiet, runProgram_eq_of_not_overruns hlimit hquiet 9⟩

end KawaiiLang
