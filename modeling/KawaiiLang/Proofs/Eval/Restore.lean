import KawaiiLang.Proofs.Eval.Law
import KawaiiLang.Proofs.Eval.Session
import KawaiiLang.Proofs.Scope.Store

namespace KawaiiLang

namespace Machine

/-- The machine is back in the frame and at the call depth that it was in before, and
    every frame made in between has been given up. -/
structure Restored (before after : Machine) : Prop where
  scope : after.scope = before.scope
  depth : after.depth = before.depth
  nextFrame : after.store.nextFrame = before.store.nextFrame

theorem Restored.refl (machine : Machine) : machine.Restored machine :=
  ⟨rfl, rfl, rfl⟩

theorem Restored.trans {first second third : Machine} (hfirst : first.Restored second)
    (hsecond : second.Restored third) : first.Restored third :=
  ⟨hsecond.scope.trans hfirst.scope, hsecond.depth.trans hfirst.depth,
    hsecond.nextFrame.trans hfirst.nextFrame⟩

/-- The frame that is given up is the one that was made, if all frames made inside it
    have been given up before. -/
theorem nextFrame_outer {machine next : Machine} {frame : Frame} (scope : FrameId)
    (hnext : next.store.nextFrame = (machine.inner frame).store.nextFrame) :
    (next.outer scope).store.nextFrame = machine.store.nextFrame := by
  have hsize : next.store.frames.size = machine.store.frames.size + 1 :=
    hnext.trans (Array.size_push frame)
  change next.store.frames.pop.size = machine.store.frames.size
  rw [Array.size_pop, hsize, Nat.add_sub_cancel]

theorem restored_defined (machine : Machine) (function : FunctionDef) :
    machine.Restored (machine.defined function) :=
  ⟨rfl, rfl, Store.nextFrame_update _ globals _⟩

theorem restored_definedAll (machine : Machine) (functions : List FunctionDef) :
    machine.Restored (machine.definedAll functions) := by
  induction functions generalizing machine with
  | nil => exact .refl machine
  | cons function functions ih => exact (restored_defined machine function).trans (ih _)

/-- Whatever a run does, it comes back to where it started. -/
def restoring (limit : Nat) : Law limit where
  ready _ := True
  good _ := True
  change _ := Restored
  refl _ := .refl
  trans := .trans
  write_of_read := id
  ready_of_change _ _ := trivial
  good_of_type _ := trivial
  good_of_get _ _ := trivial
  input _ _ := ⟨rfl, rfl, rfl⟩
  output _ _ := ⟨rfl, rfl, rfl⟩
  define _ _ _ := ⟨rfl, rfl, Store.nextFrame_update _ _ _⟩
  update _ _ _ := ⟨rfl, rfl, Store.nextFrame_assign? _ _ _ _⟩
  enter {machine closure args} _ _ _ _ := by
    refine ⟨trivial, ?_⟩
    intro next hnext
    have hdepth : next.depth = machine.depth + 1 := hnext.depth
    refine ⟨rfl, ?_, nextFrame_outer machine.scope hnext.nextFrame⟩
    change next.depth - 1 = machine.depth
    omega

end Machine

namespace Eval

open Machine (restoring)

theorem restored_runProgram (limit fuel : Nat) (program : Program) (machine : Machine) :
    machine.Restored (final (runProgram limit fuel program machine)) := by
  have hdefined := machine.restored_definedAll program.functions
  cases hmain : program.main with
  | none =>
    rw [runProgram_of_main_eq_none limit fuel machine hmain]
    exact hdefined
  | some main =>
    rw [final_runProgram limit fuel machine hmain]
    refine hdefined.trans (.trans ?_ ((restoring limit).obeys_flush (.single 0) _ trivial).1)
    obtain ⟨hbody, _⟩ := (restoring limit).obeys_executeBody fuel main.body
      ((machine.definedAll program.functions).inner Machine.mainFrame) trivial
    exact ⟨rfl, hbody.depth, Machine.nextFrame_outer _ hbody.nextFrame⟩

/-- However the evaluation of an expression, the run of a statement or of a body, or the
    run of a whole program ends, the machine is back in its frame and at its call depth. -/
theorem scope_and_depth_restored (limit fuel : Nat) (machine : Machine) :
    (∀ expression, machine.Restored (final (evaluate limit fuel expression machine))) ∧
      (∀ statement, machine.Restored (final (execute limit fuel statement machine))) ∧
      (∀ body, machine.Restored (final (executeBody limit fuel body machine))) ∧
      ∀ program, machine.Restored (final (runProgram limit fuel program machine)) := by
  refine ⟨?_, ?_, ?_, ?_⟩
  · intro expression
    exact ((restoring limit).obeys_evaluate fuel expression machine trivial).1
  · intro statement
    exact ((restoring limit).obeys_execute fuel statement machine trivial).1
  · intro body
    exact ((restoring limit).obeys_executeBody fuel body machine trivial).1
  · intro program
    exact restored_runProgram limit fuel program machine

end Eval
end KawaiiLang
