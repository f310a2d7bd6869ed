import Mathlib.Logic.Relator
import KawaiiLang.Proofs.Semantics.Complete

namespace KawaiiLang

namespace Eval

variable {α : Type} {limit fuel : Nat} {machine next : Machine}

theorem ended_inj {ending ending' : Except RuntimeError α} {next' : Machine}
    (hsame : ended ending next = ended ending' next') : ending = ending' ∧ next = next' := by
  cases ending <;> cases ending' <;> cases hsame <;> exact ⟨rfl, rfl⟩

/-- The rules derive whatever a task comes to. -/
theorem derived_compute (limit fuel rounds : Nat) (task : Task) :
    Derived limit task (task.compute limit fuel rounds) := by
  obtain ⟨hevaluate, hexecute⟩ := derived_run limit fuel
  have hrun := derived_runBody hexecute
  cases task with
  | evaluate expression => exact hevaluate expression
  | evaluateAll expressions => exact derived_evaluateAll hevaluate expressions
  | call name args span => exact derived_call hevaluate hrun name args span
  | execute statement => exact hexecute statement
  | run body => exact hrun body
  | choose branches otherwise => exact derived_runBranches hevaluate hrun otherwise branches
  | loop condition body => exact derived_runLoop hevaluate hrun condition body rounds

end Eval

open Eval

namespace Task

variable {limit : Nat} {machine next : Machine}

/-- A task comes to an end, on some amount of fuel, just if the rules derive that end. -/
theorem exists_compute_iff (task : Task) (ending : task.Ending) :
    (∃ fuel, task.compute limit fuel fuel machine = ended (task.toExcept ending) next) ↔
      task.Ends limit machine ending next := by
  constructor
  · rintro ⟨fuel, hcompute⟩
    have hends := derived_compute limit fuel fuel task _ _ _ hcompute
    rwa [ofExcept_toExcept] at hends
  · intro hends
    obtain ⟨enough, henough⟩ := hends.comesTo
    exact ⟨enough, henough enough (Nat.le_refl _) enough (Nat.le_refl _)⟩

/-- A task has one ending at most, as with enough fuel the evaluator comes to all of them. -/
theorem Ends.unique {task : Task} {ending ending' : task.Ending} {next' : Machine}
    (hends : task.Ends limit machine ending next) (hends' : task.Ends limit machine ending' next') :
    ending = ending' ∧ next = next' := by
  obtain ⟨enough, henough⟩ := hends.comesTo
  obtain ⟨enough', henough'⟩ := hends'.comesTo
  have hfirst := henough (max enough enough') (by omega) (max enough enough') (by omega)
  have hsecond := henough' (max enough enough') (by omega) (max enough enough') (by omega)
  obtain ⟨hending, hnext⟩ := ended_inj (hfirst.symm.trans hsecond)
  have hsame := congrArg task.ofExcept hending
  rw [ofExcept_toExcept, ofExcept_toExcept] at hsame
  exact ⟨hsame, hnext⟩

end Task

namespace Program

variable {limit fuel : Nat} {program : Program} {machine next : Machine}
  {ending : Except RuntimeError Unit}

theorem ends_of_runProgram (hrun : runProgram limit fuel program machine = ended ending next) :
    program.Ends limit machine ending next := by
  cases hmain : program.main with
  | none =>
    rw [runProgram_of_main_eq_none limit fuel machine hmain] at hrun
    cases ending <;> cases hrun
    exact .empty hmain (Machine.defines_iff.mpr rfl)
  | some main =>
    rw [runProgram_of_main_eq_some limit fuel machine hmain] at hrun
    have hderived := derived_compute limit fuel fuel (.run main.body)
      ((machine.definedAll program.functions).inner Machine.mainFrame)
    cases hbody : executeBody limit fuel main.body
        ((machine.definedAll program.functions).inner Machine.mainFrame) with
    | ok outcome last =>
      rw [concluded_of_eq_ok (inFrame_of_eq_ok hbody), flush_iff] at hrun
      exact .mainEnded hmain (Machine.defines_iff.mpr rfl) (Machine.opens_iff.mpr rfl)
        (hderived (.ok outcome) last hbody) (Completion.ofExcept_ok_ne_raised outcome)
        (Machine.closes_iff.mpr rfl) hrun
    | error reason last =>
      rw [concluded_of_eq_error (inFrame_of_eq_error hbody)] at hrun
      cases ending <;> cases hrun
      have hflush := flush_apply (.single 0) (last.outer (machine.definedAll program.functions).scope)
      rw [hflush, final_ended]
      exact .mainRaised hmain (Machine.defines_iff.mpr rfl) (Machine.opens_iff.mpr rfl)
        (hderived (.error _) last hbody) (Machine.closes_iff.mpr rfl) (flush_iff.mp hflush)

/-- What the rules derive for a program, all large amounts of fuel suffice for. -/
theorem Ends.comesTo (hends : program.Ends limit machine ending next) :
    ∃ enough, ∀ fuel ≥ enough, runProgram limit fuel program machine = ended ending next := by
  cases hends with
  | empty hmain hdefines =>
    obtain rfl := Machine.defines_iff.mp hdefines
    exact ⟨0, fun fuel _ => runProgram_of_main_eq_none limit fuel machine hmain⟩
  | @mainEnded _ _ _ _ _ _ completion _ hmain hdefines hopens hbody hcompletion hcloses hflushes =>
    obtain rfl := Machine.defines_iff.mp hdefines
    obtain rfl := Machine.opens_iff.mp hopens
    obtain rfl := Machine.closes_iff.mp hcloses
    obtain ⟨enough, henough⟩ := hbody.comesTo
    refine ⟨enough, ?_⟩
    intro fuel hfuel
    have hrun := henough fuel hfuel enough (Nat.le_refl _)
    rw [runProgram_of_main_eq_some limit fuel machine hmain]
    cases completion with
    | raised error => exact absurd rfl (hcompletion error)
    | normal | returned | broke | continued =>
      exact (concluded_of_eq_ok (inFrame_of_eq_ok hrun)).trans (flush_iff.mpr hflushes)
  | @mainRaised _ _ _ _ _ _ _ flushed hmain hdefines hopens hbody hcloses hflushes =>
    obtain rfl := Machine.defines_iff.mp hdefines
    obtain rfl := Machine.opens_iff.mp hopens
    obtain rfl := Machine.closes_iff.mp hcloses
    obtain ⟨enough, henough⟩ := hbody.comesTo
    refine ⟨enough, ?_⟩
    intro fuel hfuel
    have hrun := henough fuel hfuel enough (Nat.le_refl _)
    rw [runProgram_of_main_eq_some limit fuel machine hmain]
    refine (concluded_of_eq_error (inFrame_of_eq_error hrun)).trans ?_
    rw [flush_iff.mpr hflushes]
    cases flushed <;> rfl

theorem Ends.unique {ending' : Except RuntimeError Unit} {next' : Machine}
    (hends : program.Ends limit machine ending next)
    (hends' : program.Ends limit machine ending' next') : ending = ending' ∧ next = next' := by
  obtain ⟨enough, henough⟩ := hends.comesTo
  obtain ⟨enough', henough'⟩ := hends'.comesTo
  have hfirst := henough (max enough enough') (by omega)
  have hsecond := henough' (max enough enough') (by omega)
  exact ended_inj (hfirst.symm.trans hsecond)

end Program

/-- The evaluator does what the rules say: it comes to an end, on some amount of fuel, exactly
    if the rules derive that end and the machine left behind. And the rules never derive two
    different ends of one task or program on one machine. -/
theorem Eval.agrees_with_rules (limit : Nat) :
    (∀ expression machine ending next,
        (∃ fuel, evaluate limit fuel expression machine = ended ending next) ↔
          (Task.evaluate expression).Ends limit machine ending next) ∧
      (∀ statement machine completion next,
        (∃ fuel, execute limit fuel statement machine = ended (Completion.toExcept completion) next) ↔
          (Task.execute statement).Ends limit machine completion next) ∧
      (∀ body machine completion next,
        (∃ fuel, executeBody limit fuel body machine =
            ended (Completion.toExcept completion) next) ↔
          (Task.run body).Ends limit machine completion next) ∧
      (∀ program machine ending next,
        (∃ fuel, runProgram limit fuel program machine = ended ending next) ↔
          program.Ends limit machine ending next) ∧
      (∀ task : Task, Relator.RightUnique fun machine (result : task.Ending × Machine) =>
        task.Ends limit machine result.1 result.2) ∧
      ∀ program : Program, Relator.RightUnique
        fun machine (result : Except RuntimeError Unit × Machine) =>
          program.Ends limit machine result.1 result.2 := by
  refine ⟨?_, ?_, ?_, ?_, ?_, ?_⟩
  · intro expression machine ending next
    exact Task.exists_compute_iff (.evaluate expression) ending
  · intro statement machine completion next
    exact Task.exists_compute_iff (.execute statement) completion
  · intro body machine completion next
    exact Task.exists_compute_iff (.run body) completion
  · intro program machine ending next
    constructor
    · rintro ⟨fuel, hrun⟩
      exact Program.ends_of_runProgram hrun
    · intro hends
      obtain ⟨enough, henough⟩ := hends.comesTo
      exact ⟨enough, henough enough (Nat.le_refl _)⟩
  · intro task machine result result' hends hends'
    obtain ⟨hending, hnext⟩ := hends.unique hends'
    exact Prod.ext hending hnext
  · intro program machine result result' hends hends'
    obtain ⟨hending, hnext⟩ := hends.unique hends'
    exact Prod.ext hending hnext

end KawaiiLang
