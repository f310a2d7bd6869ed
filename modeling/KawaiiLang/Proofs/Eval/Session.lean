import KawaiiLang.Eval.Session
import KawaiiLang.Proofs.Eval.Frame

namespace KawaiiLang

namespace Machine

/-- The machine with one more function in its global frame. -/
def defined (machine : Machine) (function : FunctionDef) : Machine :=
  let (closure, store) := machine.store.close function.name function.params function.body globals
  { machine with store := store.define globals function.name (.function closure) }

/-- The machine with the functions of a program in its global frame. -/
def definedAll (machine : Machine) (functions : List FunctionDef) : Machine :=
  functions.foldl defined machine

theorem definedAll_eq (machine : Machine) (functions : List FunctionDef) :
    machine.definedAll functions =
      { machine with store := (machine.definedAll functions).store } := by
  induction functions generalizing machine with
  | nil => rfl
  | cons function functions ih => exact ih (machine.defined function)

/-- The frame in which the main entry runs. -/
def mainFrame : Frame :=
  { enclosing := some globals }

end Machine

namespace Eval

variable {α : Type}

theorem defineFunction_apply (function : FunctionDef) (machine : Machine) :
    defineFunction function machine = .ok () (machine.defined function) :=
  rfl

theorem forM_defineFunction (functions : List FunctionDef) (machine : Machine) :
    functions.forM defineFunction machine = .ok () (machine.definedAll functions) := by
  induction functions generalizing machine with
  | nil => rfl
  | cons function functions ih =>
    rw [List.forM, bind_of_eq_ok (defineFunction_apply function machine), ih]
    rfl

theorem final_inFrame (frame : Frame) (body : Eval α) (machine : Machine) :
    final (inFrame frame body machine) =
      (final (body (machine.inner frame))).outer machine.scope := by
  cases hbody : body (machine.inner frame) with
  | ok value next => rw [inFrame_of_eq_ok hbody, final, final]
  | error reason next => rw [inFrame_of_eq_error hbody, final, final]

theorem concluded_of_eq_ok {body : Eval α} {machine next : Machine} {value : α}
    (hbody : body machine = .ok value next) :
    concluded body machine = flush (.single 0) next := by
  simp only [concluded, hbody]

theorem concluded_of_eq_error {body : Eval α} {machine next : Machine} {reason : Interrupt}
    (hbody : body machine = .error reason next) :
    concluded body machine = .error reason (final (flush (.single 0) next)) := by
  simp only [concluded, hbody]
  cases flush (.single 0) next <;> rfl

theorem final_concluded (body : Eval α) (machine : Machine) :
    final (concluded body machine) = final (flush (.single 0) (final (body machine))) := by
  unfold concluded
  cases body machine with
  | ok value next => rfl
  | error reason next =>
    dsimp only [final]
    cases flush (.single 0) next <;> rfl

theorem concluded_inFrame_congr {frame : Frame} {body body' : Eval α} {machine : Machine}
    (hbody : body (machine.inner frame) = body' (machine.inner frame)) :
    concluded (inFrame frame body) machine = concluded (inFrame frame body') machine := by
  have hinside : inFrame frame body machine = inFrame frame body' machine := by
    cases hrun : body (machine.inner frame) with
    | ok value next => rw [inFrame_of_eq_ok hrun, inFrame_of_eq_ok (hbody.symm.trans hrun)]
    | error reason next => rw [inFrame_of_eq_error hrun, inFrame_of_eq_error (hbody.symm.trans hrun)]
  rw [concluded, concluded, hinside]

theorem runProgram_of_main_eq_none (limit fuel : Nat) {program : Program} (machine : Machine)
    (hmain : program.main = none) :
    runProgram limit fuel program machine = .ok () (machine.definedAll program.functions) := by
  rw [runProgram, bind_of_eq_ok (forM_defineFunction program.functions machine), hmain]
  rfl

theorem runProgram_of_main_eq_some (limit fuel : Nat) {program : Program} {main : MainEntry}
    (machine : Machine) (hmain : program.main = some main) :
    runProgram limit fuel program machine =
      concluded (inFrame Machine.mainFrame (executeBody limit fuel main.body))
        (machine.definedAll program.functions) := by
  rw [runProgram, bind_of_eq_ok (forM_defineFunction program.functions machine), hmain]
  rfl

/-- A program that has a main entry runs it in a frame of its own, behind its
    definitions, and flushes the output in the end. -/
theorem final_runProgram (limit fuel : Nat) {program : Program} {main : MainEntry}
    (machine : Machine) (hmain : program.main = some main) :
    final (runProgram limit fuel program machine) =
      final (flush (.single 0) ((final (executeBody limit fuel main.body
        ((machine.definedAll program.functions).inner Machine.mainFrame))).outer
          (machine.definedAll program.functions).scope)) := by
  rw [runProgram_of_main_eq_some limit fuel machine hmain, final_concluded, final_inFrame]

theorem final_flush_bind (span : Span) (next : Eval α) (machine : Machine)
    (hnext : ∀ middle, final (next middle) = middle) :
    final ((flush span >>= fun _ => next) machine) = final (flush span machine) := by
  cases hflush : flush span machine with
  | ok value middle => rw [bind_of_eq_ok hflush, hnext, final]
  | error reason middle => rw [bind_of_eq_error hflush, final, final]

theorem runLine_of_perform {limit fuel : Nat} {line : Line} {machine next : Machine}
    {effect : Effect} (hperform : perform limit fuel line machine = .ok effect next) :
    runLine limit fuel line machine =
      (do flush (.single 0); return effect.shown : Eval (Option Value)) next := by
  unfold runLine
  rw [hperform]

/-- What is done behind a line that was stopped: nothing if it was an expression, or if the fuel
    did not suffice for it. -/
def giveUp (line : Line) (reason : Interrupt) : Eval (Option Value) :=
  match reason, line with
  | .outOfFuel, _ => throw .outOfFuel
  | reason, .expression _ => throw reason
  | reason, _ => do flush (.single 0); throw reason

theorem giveUp_cases (line : Line) (reason : Interrupt) :
    giveUp line reason = throw reason ∨
      giveUp line reason = (do flush (.single 0); throw reason) := by
  cases reason with
  | outOfFuel => exact .inl rfl
  | failure error =>
    cases line with
    | expression => exact .inl rfl
    | empty | definition | statements => exact .inr rfl

theorem runLine_of_perform_error {limit fuel : Nat} {line : Line} {machine next : Machine}
    {reason : Interrupt} (hperform : perform limit fuel line machine = .error reason next) :
    runLine limit fuel line machine = giveUp line reason next := by
  unfold runLine
  rw [hperform]
  cases reason <;> cases line <;> rfl

/-- Behind what a line says there is a flush of the output, or nothing at all. -/
theorem final_runLine (limit fuel : Nat) (line : Line) (machine : Machine) :
    final (runLine limit fuel line machine) = final (perform limit fuel line machine) ∨
      final (runLine limit fuel line machine) =
        final (flush (.single 0) (final (perform limit fuel line machine))) := by
  cases hperform : perform limit fuel line machine with
  | ok effect next =>
    rw [runLine_of_perform hperform]
    exact .inr (final_flush_bind _ _ next fun _ => rfl)
  | error reason next =>
    rw [runLine_of_perform_error hperform]
    obtain hnothing | hflush := giveUp_cases line reason
    · rw [hnothing]
      exact .inl rfl
    · rw [hflush]
      exact .inr (final_flush_bind _ _ next fun _ => rfl)

/-- A line that was stopped shows nothing. -/
theorem giveUp_ne_ok (line : Line) (reason : Interrupt) (machine : Machine) (value : Option Value)
    (next : Machine) : giveUp line reason machine ≠ .ok value next := by
  intro hvalue
  obtain hnothing | hflush := giveUp_cases line reason
  · rw [hnothing] at hvalue
    cases hvalue
  · rw [hflush, bind_eq_ok_iff] at hvalue
    obtain ⟨_, middle, _, hthrow⟩ := hvalue
    cases hthrow

/-- Only the value of an expression is shown. -/
theorem eq_value_of_shown {effect : Effect} {value : Value} (hshown : effect.shown = some value) :
    effect = .value value := by
  cases effect with
  | value found =>
    cases found <;> cases hshown
    all_goals rfl
  | nothing | defined | outcome => cases hshown

/-- A line that shows a value is an expression of that value. -/
theorem evaluate_of_runLine {limit fuel : Nat} {line : Line} {value : Value}
    {machine next : Machine} (hvalue : runLine limit fuel line machine = .ok (some value) next) :
    ∃ expression final, evaluate limit fuel expression machine = .ok value final := by
  cases hperform : perform limit fuel line machine with
  | ok effect middle =>
    rw [runLine_of_perform hperform, bind_eq_ok_iff] at hvalue
    obtain ⟨_, last, _, hlast⟩ := hvalue
    obtain ⟨hshown, _⟩ := pure_eq_ok_iff.mp hlast
    obtain rfl := eq_value_of_shown hshown
    cases line with
    | expression expression =>
      rw [perform, bind_eq_ok_iff] at hperform
      obtain ⟨found, final, hfound, hperform⟩ := hperform
      obtain ⟨hsame, rfl⟩ := pure_eq_ok_iff.mp hperform
      cases hsame
      exact ⟨expression, final, hfound⟩
    | empty | definition => cases hperform
    | statements body =>
      rw [perform, bind_eq_ok_iff] at hperform
      obtain ⟨outcome, final, _, hperform⟩ := hperform
      obtain ⟨hsame, _⟩ := pure_eq_ok_iff.mp hperform
      cases hsame
  | error reason middle =>
    rw [runLine_of_perform_error hperform] at hvalue
    exact absurd hvalue (giveUp_ne_ok line reason middle (some value) next)

end Eval
end KawaiiLang
