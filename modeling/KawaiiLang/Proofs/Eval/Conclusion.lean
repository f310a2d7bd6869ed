import KawaiiLang.Proofs.Eval.Session

namespace KawaiiLang

/-- Whether a line is to be evaluated for its value. -/
def Line.isExpression : Line → Bool
  | expression _ => true
  | _ => false

namespace Eval

variable {limit fuel : Nat} {line : Line} {machine next last : Machine}

/-- The line ends as a main entry does: with one flush behind what it says, whether or not that
    has failed, and with the error of the flush only if that has not. -/
def Concludes (limit fuel : Nat) (line : Line) (machine : Machine) : Prop :=
  discard (runLine limit fuel line) machine = concluded (perform limit fuel line) machine

theorem discard_of_eq_ok {α : Type} {computation : Eval α} {value : α}
    (hresult : computation machine = .ok value next) :
    discard computation machine = .ok () next := by
  change EStateM.map _ computation machine = _
  rw [EStateM.map, hresult]

theorem discard_of_eq_error {α : Type} {computation : Eval α} {reason : Interrupt}
    (hresult : computation machine = .error reason next) :
    discard computation machine = .error reason next := by
  change EStateM.map _ computation machine = _
  rw [EStateM.map, hresult]

/-- Behind a line that has done what it says comes a flush, and the line fails if that does. -/
theorem concludes_of_perform {effect : Effect}
    (hperform : perform limit fuel line machine = .ok effect next) :
    Concludes limit fuel line machine := by
  rw [Concludes, concluded_of_eq_ok hperform]
  have hline := runLine_of_perform hperform
  cases hflush : flush (.single 0) next with
  | ok _ last =>
    rw [bind_of_eq_ok hflush] at hline
    exact discard_of_eq_ok hline
  | error refusal last =>
    rw [bind_of_eq_error hflush] at hline
    exact discard_of_eq_error hline

/-- An expression that fails leaves the output as it is. -/
theorem runLine_of_failed_expression {reason : Interrupt}
    (hperform : perform limit fuel line machine = .error reason next)
    (hline : line.isExpression = true) : runLine limit fuel line machine = .error reason next := by
  rw [runLine_of_perform_error hperform]
  cases line with
  | expression => cases reason <;> rfl
  | empty | definition | statements => cases hline

/-- Behind any other line that has failed comes a flush. -/
theorem runLine_of_failed {failure : Failure}
    (hperform : perform limit fuel line machine = .error (.failure failure) next)
    (hline : line.isExpression = false) :
    runLine limit fuel line machine =
      (do flush (.single 0); throw (.failure failure) : Eval (Option Value)) next := by
  rw [runLine_of_perform_error hperform]
  cases line with
  | expression => cases hline
  | empty | definition | statements => rfl

/-- How a line ends, compared with a main entry, which is always concluded by one flush. A line
    that does not fail ends in the same way. Behind one that fails and is no expression there is
    also one flush; where that succeeds the line still ends as a main entry would, but where it is
    refused its error is the one that counts. And behind an expression that fails there is no
    flush at all. A line for which the fuel did not suffice has not ended in any of these ways. -/
theorem runLine_conclusion (limit fuel : Nat) (line : Line) (machine : Machine) :
    (∀ effect next, perform limit fuel line machine = .ok effect next →
        runLine limit fuel line machine =
            (do flush (.single 0); return effect.shown : Eval (Option Value)) next ∧
          Concludes limit fuel line machine) ∧
      (∀ failure next, perform limit fuel line machine = .error (.failure failure) next →
        line.isExpression = false →
          runLine limit fuel line machine =
              (do flush (.single 0); throw (.failure failure) : Eval (Option Value)) next ∧
            (∀ last, flush (.single 0) next = .ok () last → Concludes limit fuel line machine) ∧
            ∀ refusal last, flush (.single 0) next = .error refusal last →
              runLine limit fuel line machine = .error refusal last) ∧
      (∀ reason next, perform limit fuel line machine = .error reason next →
        line.isExpression = true → runLine limit fuel line machine = .error reason next) ∧
      (∀ next, perform limit fuel line machine = .error .outOfFuel next →
        runLine limit fuel line machine = .error .outOfFuel next) ∧
      ∀ program main, program.main = some main →
        runProgram limit fuel program machine =
          concluded (inFrame Machine.mainFrame (executeBody limit fuel main.body))
            (machine.definedAll program.functions) := by
  refine ⟨?_, ?_, ?_, ?_, ?_⟩
  · intro effect next hperform
    exact ⟨runLine_of_perform hperform, concludes_of_perform hperform⟩
  · intro failure next hperform hline
    have hfailed := runLine_of_failed hperform hline
    refine ⟨hfailed, ?_, ?_⟩
    · intro last hflush
      rw [bind_of_eq_ok hflush] at hfailed
      rw [Concludes, discard_of_eq_error hfailed, concluded_of_eq_error hperform, hflush]
      rfl
    · intro refusal last hflush
      rw [hfailed, bind_of_eq_error hflush]
  · intro reason next hperform hline
    exact runLine_of_failed_expression hperform hline
  · intro next hperform
    rw [runLine_of_perform_error hperform]
    rfl
  · intro program main hmain
    exact runProgram_of_main_eq_some limit fuel machine hmain

/-- The expression `1 / 0` with `offset` characters in front of it. -/
def quotient (offset : Nat) : Expr :=
  .binary .divide (.literal (.int 1) ⟨offset, offset + 1⟩)
    (.literal (.int 0) ⟨offset + 4, offset + 5⟩) ⟨offset, offset + 5⟩

/-- The line `x asain 1 / 0`. -/
def assigned : Line :=
  .statements [.assign "x" (quotient 8) ⟨0, 13⟩]

/-- The error of a statement gives way to that of the flush behind it, and the flush behind an
    expression that fails is left out. -/
theorem not_concludes_quotient :
    ¬ Concludes 0 3 assigned (.start {} { flushLimit := some 0 }) ∧
      ¬ Concludes 0 3 (.expression (quotient 0)) (.start {} {}) := by
  constructor
  · intro hconcludes
    obtain ⟨last, hline⟩ : ∃ last, discard (runLine 0 3 assigned)
        (.start {} { flushLimit := some 0 }) =
          .error (.fault ⟨.stream .flushRefused, .single 0⟩) last := ⟨_, rfl⟩
    obtain ⟨last', hentry⟩ : ∃ last', concluded (perform 0 3 assigned)
        (.start {} { flushLimit := some 0 }) =
          .error (.fault ⟨.divisionByZero, ⟨8, 13⟩⟩) last' := ⟨_, rfl⟩
    cases hline.symm.trans (hconcludes.trans hentry)
  · intro hconcludes
    have hline : (final (discard (runLine 0 3 (.expression (quotient 0)))
        (.start {} {}))).output.flushes = 0 := rfl
    have hentry : (final (concluded (perform 0 3 (.expression (quotient 0)))
        (.start {} {}))).output.flushes = 1 := rfl
    rw [hconcludes, hentry] at hline
    cases hline

end Eval
end KawaiiLang
