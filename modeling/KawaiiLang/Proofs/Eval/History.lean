import KawaiiLang.Proofs.Eval.Functions
import KawaiiLang.Proofs.Eval.Restore

namespace KawaiiLang

/-- The functions that a line of a session defines. -/
def Line.definitions : Line → List FunctionDef
  | .definition function => [function]
  | _ => []

namespace Law

variable {limit : Nat}

/-- Behind the definition that a line may consist of, it does what code may do. -/
theorem change_perform (law : Law limit) (fuel : Nat) (line : Line) (machine : Machine)
    (hready : law.ready (machine.definedAll line.definitions)) :
    law.change .write (machine.definedAll line.definitions)
      (Eval.final (Eval.perform limit fuel line machine)) := by
  cases line with
  | empty => exact law.refl .write machine
  | definition function => exact law.refl .write (machine.defined function)
  | expression expression =>
    have hobeys : law.Obeys .write (fun _ => True)
        (Eval.perform limit fuel (.expression expression)) :=
      (law.obeys_evaluate fuel expression).write.bind fun _ _ => obeys_pure trivial
    exact (hobeys machine hready).1
  | statements body =>
    have hobeys : law.Obeys .write (fun _ => True) (Eval.perform limit fuel (.statements body)) :=
      (law.obeys_executeBody fuel body).bind fun _ _ => obeys_pure trivial
    exact (hobeys machine hready).1

theorem change_runLine (law : Law limit) (fuel : Nat) (line : Line) (machine : Machine)
    (hready : law.ready (machine.definedAll line.definitions)) :
    law.change .write (machine.definedAll line.definitions)
      (Eval.final (Eval.runLine limit fuel line machine)) := by
  have hperform := law.change_perform fuel line machine hready
  obtain hfinal | hfinal := Eval.final_runLine limit fuel line machine
  · rw [hfinal]
    exact hperform
  · have hnext := law.ready_of_change hready hperform
    rw [hfinal]
    exact law.trans hperform (law.write_of_read (law.obeys_flush (.single 0) _ hnext).1)

end Law

namespace Machine

variable {p : Closure → Prop}

theorem Holds.runProgram {machine : Machine} {program : Program}
    (hholds : (machine.definedAll program.functions).Holds p) (limit fuel : Nat) :
    (Eval.final (Eval.runProgram limit fuel program machine)).Holds p := by
  cases hmain : program.main with
  | none =>
    rw [Eval.runProgram_of_main_eq_none limit fuel machine hmain]
    exact hholds
  | some main =>
    rw [Eval.final_runProgram limit fuel machine hmain]
    have hinner : ((machine.definedAll program.functions).inner mainFrame).Holds p :=
      hholds.inner nofun
    obtain ⟨hbody, _⟩ := (holding limit p).obeys_executeBody fuel main.body _ hinner
    have houter := (hbody.holds hinner).outer (machine.definedAll program.functions).scope
    exact ((holding limit p).obeys_flush (.single 0) _ houter).1.holds houter

/-- The machines that a session can come to between its lines and programs, with calls
    nested at most `limit` deep, and the functions that it has defined on the way. -/
inductive Session (limit : Nat) : List FunctionDef → Machine → Prop where
  | start (input : Input) (output : Sink) : Session limit [] (start input output)
  | input {functions : List FunctionDef} {machine : Machine}
      (hsession : Session limit functions machine) (input : Input) :
      Session limit functions { machine with input }
  | program {functions : List FunctionDef} {machine : Machine} {fuel : Nat} {program : Program}
      (hsession : Session limit functions machine)
      (hfinished : Eval.Finished (Eval.runProgram limit fuel program machine)) :
      Session limit (functions ++ program.functions)
        (Eval.final (Eval.runProgram limit fuel program machine))
  | performed {functions : List FunctionDef} {machine : Machine} {fuel : Nat} {line : Line}
      (hsession : Session limit functions machine)
      (hfinished : Eval.Finished (Eval.perform limit fuel line machine)) :
      Session limit (functions ++ line.definitions)
        (Eval.final (Eval.perform limit fuel line machine))
  | line {functions : List FunctionDef} {machine : Machine} {fuel : Nat} {line : Line}
      (hsession : Session limit functions machine)
      (hfinished : Eval.Finished (Eval.runLine limit fuel line machine)) :
      Session limit (functions ++ line.definitions)
        (Eval.final (Eval.runLine limit fuel line machine))

/-- A session holds no functions but those that it has defined. -/
theorem Session.holds {limit : Nat} {functions : List FunctionDef} {machine : Machine}
    (hsession : machine.Session limit functions)
    (hfunctions : ∀ function ∈ functions, ∀ stamp, p (function.closure stamp)) :
    machine.Holds p := by
  induction hsession with
  | start input output => exact holds_start p input output
  | input _ _ ih => exact ih hfunctions
  | @program _ machine fuel program _ _ ih =>
    rw [List.forall_mem_append] at hfunctions
    exact ((ih hfunctions.1).definedAll _ hfunctions.2).runProgram limit fuel
  | @performed _ machine fuel line _ _ ih =>
    rw [List.forall_mem_append] at hfunctions
    have hready := (ih hfunctions.1).definedAll line.definitions hfunctions.2
    exact ((holding limit p).change_perform fuel line machine hready).holds hready
  | @line _ machine fuel line _ _ ih =>
    rw [List.forall_mem_append] at hfunctions
    have hready := (ih hfunctions.1).definedAll line.definitions hfunctions.2
    exact ((holding limit p).change_runLine fuel line machine hready).holds hready

/-- Between its lines and programs a session runs no function. -/
theorem Session.depth_eq_zero {limit : Nat} {functions : List FunctionDef} {machine : Machine}
    (hsession : machine.Session limit functions) : machine.depth = 0 := by
  induction hsession with
  | start => rfl
  | input _ _ ih => exact ih
  | @program _ machine fuel program _ _ ih =>
    exact (Eval.restored_runProgram limit fuel program machine).depth.trans ih
  | @performed _ machine fuel line _ _ ih =>
    have hrestored := (restoring limit).change_perform fuel line machine trivial
    exact ((restored_definedAll machine line.definitions).trans hrestored).depth.trans ih
  | @line _ machine fuel line _ _ ih =>
    have hrestored := (restoring limit).change_runLine fuel line machine trivial
    exact ((restored_definedAll machine line.definitions).trans hrestored).depth.trans ih

end Machine
end KawaiiLang
