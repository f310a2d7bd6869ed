import KawaiiLang.Proofs.Eval.History
import KawaiiLang.Settings

namespace KawaiiLang

/-- A statement without a loop in it. There is no case for a loop. -/
inductive Stmt.LoopFree : Stmt → Prop where
  | pass (span : Span) : LoopFree (.pass span)
  | breakLoop (span : Span) : LoopFree (.breakLoop span)
  | continueLoop (span : Span) : LoopFree (.continueLoop span)
  | assign (target : String) (value : Expr) (span : Span) : LoopFree (.assign target value span)
  | returnWith (value : Option Expr) (span : Span) : LoopFree (.returnWith value span)
  | branch {condition : Expr} {body : List Stmt} {elifs : List (Expr × List Stmt)}
      {otherwise : Option (List Stmt)} {span : Span}
      (hbody : ∀ statement ∈ body, LoopFree statement)
      (helifs : ∀ branch ∈ elifs, ∀ statement ∈ branch.2, LoopFree statement)
      (hotherwise : ∀ body ∈ otherwise, ∀ statement ∈ body, LoopFree statement) :
      LoopFree (.branch condition body elifs otherwise span)
  | guarded {body handler : List Stmt} {span : Span}
      (hbody : ∀ statement ∈ body, LoopFree statement)
      (hhandler : ∀ statement ∈ handler, LoopFree statement) :
      LoopFree (.guarded body handler span)
  | print (args : List Expr) (span : Span) : LoopFree (.print args span)
  | input (prompt : Option String) (span : Span) : LoopFree (.input prompt span)
  | call (name : String) (args : List Expr) (span : Span) : LoopFree (.call name args span)
  | update (name : String) (op : UpdateOp) (span : Span) : LoopFree (.update name op span)

/-- Statements without a loop in any of them. -/
def LoopFreeBody (body : List Stmt) : Prop :=
  ∀ statement ∈ body, statement.LoopFree

structure Program.LoopFree (program : Program) : Prop where
  functions : ∀ function ∈ program.functions, LoopFreeBody function.body
  main : ∀ main ∈ program.main, LoopFreeBody main.body

def Line.LoopFree : Line → Prop
  | .empty | .expression _ => True
  | .definition function => LoopFreeBody function.body
  | .statements body => LoopFreeBody body

/-- A function without a loop, and with a body of at most the given size. -/
structure Closure.LoopFree (size : Nat) (closure : Closure) : Prop where
  body : LoopFreeBody closure.body
  size_le : sizeOf closure.body ≤ size

namespace Eval

variable {α β : Type} {limit size depth fuel : Nat} {machine : Machine}

theorem finished_bind {step : Eval α} {next : α → Eval β} (hstep : Finished (step machine))
    (hnext : ∀ value middle, step machine = .ok value middle → Finished (next value middle)) :
    Finished ((step >>= next) machine) := by
  cases hresult : step machine with
  | ok value middle =>
    rw [bind_of_eq_ok hresult]
    exact hnext value middle hresult
  | error reason middle =>
    rw [bind_of_eq_error hresult]
    rintro final hfuel
    cases hfuel
    exact hstep _ hresult

theorem finished_ofExcept (span : Span) (result : Except RuntimeFault α) (machine : Machine) :
    Finished (ofExcept span result machine) := by
  cases result <;> nofun

theorem finished_write (span : Span) (text : String) (machine : Machine) :
    Finished (write span text machine) := by
  obtain ⟨store, scope, depth, input, output⟩ := machine
  unfold write
  dsimp only
  split <;> nofun

theorem finished_printValues (span : Span) (values : List Value) (machine : Machine) :
    Finished (printValues span values machine) :=
  finished_bind (finished_write span _ machine) fun _ middle _ => finished_write span _ middle

theorem finished_flush (span : Span) (machine : Machine) : Finished (flush span machine) := by
  obtain ⟨store, scope, depth, input, output⟩ := machine
  unfold flush
  dsimp only
  split <;> nofun

theorem finished_readLine (span : Span) (machine : Machine) :
    Finished (readLine span machine) := by
  rw [readLine_apply]
  split
  · nofun
  · split <;> nofun

theorem finished_readInput (span : Span) (prompt : Option String) (machine : Machine) :
    Finished (readInput span prompt machine) := by
  have hread (machine : Machine) : Finished ((flush span >>= fun _ => readLine span) machine) :=
    finished_bind (finished_flush span machine) fun _ middle _ => finished_readLine span middle
  cases prompt with
  | none => exact hread machine
  | some text => exact finished_bind (finished_write span text machine) fun _ middle _ => hread middle

theorem finished_updateName (span : Span) (name : String) (op : UpdateOp) (machine : Machine) :
    Finished (updateName span name op machine) := by
  rw [updateName, bind_of_eq_ok (find?_apply name machine)]
  cases machine.store.get? machine.scope name with
  | none => exact finished_of_eq_fault rfl
  | some current =>
    exact finished_bind (finished_ofExcept span _ machine) fun _ _ _ => finished_of_eq_ok rfl

theorem finished_callee (span : Span) (name : String) (given : Nat) (machine : Machine) :
    Finished (callee span name given machine) := by
  rw [callee, bind_of_eq_ok (find?_apply name machine)]
  cases machine.store.get? machine.scope name with
  | none => exact finished_of_eq_fault rfl
  | some value =>
    cases value with
    | function closure =>
      dsimp only
      split
      · exact finished_of_eq_ok rfl
      · exact finished_of_eq_fault rfl
    | unit | bool | int | float | str => exact finished_of_eq_fault rfl

/-- A computation that comes to an end wherever calls are nested `depth` deep and all
    functions are free of loops and of limited size. -/
def Ends (size depth : Nat) (computation : Eval α) : Prop :=
  ∀ machine, machine.Holds (Closure.LoopFree size) → machine.depth = depth →
    Finished (computation machine)

theorem ends_of_finished {computation : Eval α}
    (hfinished : ∀ machine, Finished (computation machine)) : Ends size depth computation :=
  fun machine _ _ => hfinished machine

theorem Ends.bind {access : Access} {result : α → Prop} {step : Eval α} {next : α → Eval β}
    (hstep : Ends size depth step)
    (hobeys : (Machine.holding limit (Closure.LoopFree size)).Obeys access result step)
    (hnext : ∀ value, result value → Ends size depth (next value)) :
    Ends size depth (step >>= next) := by
  intro machine hholds hdepth
  refine finished_bind (hstep machine hholds hdepth) ?_
  intro value middle hvalue
  obtain ⟨hkeeps, hmiddle, hresult⟩ := hobeys.ready_of_eq_ok hholds hvalue
  exact hnext value hresult middle hmiddle (hkeeps.depth.trans hdepth)

/-- Fuel that suffices for code of the given size: a share for each further call that can
    be nested, and one for the code itself. -/
def enough (limit size depth code : Nat) : Nat :=
  (limit - depth) * (size + 1) + code

/-- What a body needs is less than what its caller has. -/
theorem enough_body_lt {body : Nat} (code : Nat) (hdepth : depth < limit) (hbody : body ≤ size) :
    enough limit size (depth + 1) body < enough limit size depth code := by
  have hshare : limit - depth = limit - (depth + 1) + 1 := by omega
  rw [enough, enough, hshare, Nat.succ_mul]
  omega

section

-- How the parts of an expression or a statement end on one unit of fuel less.
variable
  (hevaluate : ∀ depth expression, enough limit size depth (sizeOf expression) ≤ fuel →
    Ends size depth (evaluate limit fuel expression))
  (hexecute : ∀ depth statement, statement.LoopFree →
    enough limit size depth (sizeOf statement) ≤ fuel → Ends size depth (execute limit fuel statement))

include hevaluate in
theorem ends_evaluateAll {expressions : List Expr}
    (hfuel : enough limit size depth (sizeOf expressions) ≤ fuel) :
    Ends size depth (evaluateAll (evaluate limit fuel) expressions) := by
  induction expressions with
  | nil => exact ends_of_finished nofun
  | cons first rest ih =>
    simp only [enough, List.cons.sizeOf_spec] at hfuel ih
    have hfirst := hevaluate depth first (by rw [enough]; omega)
    refine hfirst.bind ((Machine.holding limit _).obeys_evaluate fuel first) ?_
    intro value _
    refine (ih (by omega)).bind
      (Law.obeys_evaluateAll ((Machine.holding limit _).obeys_evaluate fuel) rest) ?_
    intro values _
    exact ends_of_finished nofun

include hexecute in
theorem ends_runBody {body : List Stmt} (hbody : LoopFreeBody body)
    (hfuel : enough limit size depth (sizeOf body) ≤ fuel) :
    Ends size depth (runBody (execute limit fuel) body) := by
  induction body with
  | nil => exact ends_of_finished nofun
  | cons first rest ih =>
    rw [LoopFreeBody, List.forall_mem_cons] at hbody
    simp only [enough, List.cons.sizeOf_spec] at hfuel ih
    have hfirst := hexecute depth first hbody.1 (by rw [enough]; omega)
    refine hfirst.bind ((Machine.holding limit _).obeys_execute fuel first) ?_
    intro outcome _
    cases outcome with
    | normal => exact ih hbody.2 (by omega)
    | returned | broke | continued => exact ends_of_finished nofun

include hexecute in
/-- A call comes to an end: either the limit is reached, or its body has one call less to
    nest. -/
theorem ends_enter (span : Span) (name : String) {closure : Closure} {args : List Value} (code : Nat)
    (hclosure : (Value.function closure).Satisfies (Closure.LoopFree size))
    (hargs : ∀ value ∈ args, value.Satisfies (Closure.LoopFree size))
    (hfuel : enough limit size depth code ≤ fuel + 1) :
    Ends size depth (enter limit (runBody (execute limit fuel)) span name closure args) := by
  rintro machine hholds rfl
  by_cases hdepth : machine.depth < limit
  · obtain ⟨hloopFree, hsize⟩ := hclosure closure rfl
    obtain ⟨hentered, _⟩ :=
      (Machine.holding limit (Closure.LoopFree size)).enter hholds hdepth hclosure hargs
    have hless := enough_body_lt code hdepth hsize
    have hbodyFuel : enough limit size (machine.depth + 1) (sizeOf closure.body) ≤ fuel := by omega
    have hbody : Finished (runBody (execute limit fuel) closure.body (machine.entered closure args)) :=
      ends_runBody hexecute hloopFree hbodyFuel _ hentered rfl
    cases hresult : runBody (execute limit fuel) closure.body (machine.entered closure args) with
    | ok outcome next =>
      rw [enter_of_eq_ok hdepth hresult]
      nofun
    | error reason next =>
      rw [enter_of_eq_error hdepth hresult]
      rintro final hreason
      cases hreason
      exact hbody next hresult
  · rw [enter_of_limit_le (Nat.not_lt.mp hdepth)]
    nofun

include hevaluate hexecute in
theorem ends_call (span : Span) (name : String) {args : List Expr}
    (hfuel : enough limit size depth (sizeOf args) ≤ fuel) :
    Ends size depth
      (call limit (evaluate limit fuel) (runBody (execute limit fuel)) span name args) := by
  have hcallee : Ends size depth (callee span name args.length) :=
    ends_of_finished (finished_callee span name args.length)
  have hobeys : (Machine.holding limit (Closure.LoopFree size)).Obeys .read _
      (callee span name args.length) := Law.obeys_callee span name args.length
  refine hcallee.bind hobeys ?_
  intro closure hclosure
  refine (ends_evaluateAll hevaluate hfuel).bind
    (Law.obeys_evaluateAll ((Machine.holding limit _).obeys_evaluate fuel) args) ?_
  intro values hvalues
  exact ends_enter hexecute span name _ hclosure hvalues (Nat.le_succ_of_le hfuel)

include hevaluate hexecute in
theorem ends_evaluateWith {expression : Expr}
    (hfuel : enough limit size depth (sizeOf expression) ≤ fuel + 1) :
    Ends size depth
      (evaluateWith limit (evaluate limit fuel) (runBody (execute limit fuel)) expression) := by
  rw [enough] at hfuel
  have hobeys := (Machine.holding limit (Closure.LoopFree size)).obeys_evaluate fuel
  cases expression with
  | literal => exact ends_of_finished nofun
  | name name span =>
    refine ends_of_finished fun machine => finished_bind nofun fun found middle _ => ?_
    cases found <;> nofun
  | unary op operand span =>
    simp only [Expr.unary.sizeOf_spec] at hfuel
    refine (hevaluate depth operand (by rw [enough]; omega)).bind (hobeys operand) ?_
    intro value _
    exact ends_of_finished (finished_ofExcept span _)
  | binary op left right span =>
    simp only [Expr.binary.sizeOf_spec] at hfuel
    refine (hevaluate depth left (by rw [enough]; omega)).bind (hobeys left) ?_
    intro first _
    refine (hevaluate depth right (by rw [enough]; omega)).bind (hobeys right) ?_
    intro second _
    exact ends_of_finished (finished_ofExcept span _)
  | group inner =>
    simp only [Expr.group.sizeOf_spec] at hfuel
    exact hevaluate depth inner (by rw [enough]; omega)
  | print args span =>
    simp only [Expr.print.sizeOf_spec] at hfuel
    refine (ends_evaluateAll hevaluate (by rw [enough]; omega)).bind
      (Law.obeys_evaluateAll hobeys args) ?_
    intro values _
    exact ends_of_finished fun machine =>
      finished_bind (finished_printValues span values machine) fun _ _ _ => nofun
  | input prompt span => exact ends_of_finished (finished_readInput span prompt)
  | call name args span =>
    simp only [Expr.call.sizeOf_spec] at hfuel
    exact ends_call hevaluate hexecute span name (by rw [enough]; omega)

theorem ends_runBranches {evaluate : Expr → Eval Value} {run : List Stmt → Eval Outcome}
    (hobeys : ∀ expression, (Machine.holding limit (Closure.LoopFree size)).Obeys .read
      (Machine.holding limit (Closure.LoopFree size)).good (evaluate expression))
    {otherwise : List Stmt} {branches : List (Expr × List Stmt)}
    (hotherwise : Ends size depth (run otherwise))
    (hbranches : ∀ branch ∈ branches,
      Ends size depth (evaluate branch.1) ∧ Ends size depth (run branch.2)) :
    Ends size depth (runBranches evaluate run otherwise branches) := by
  induction branches with
  | nil => exact hotherwise
  | cons branch rest ih =>
    rw [List.forall_mem_cons] at hbranches
    obtain ⟨⟨hcondition, hbody⟩, hrest⟩ := hbranches
    refine hcondition.bind (hobeys branch.1) ?_
    intro value _
    split
    · exact hbody
    · exact ih hrest

theorem ends_rescue {body handler : Eval Outcome} (hbody : Ends size depth body)
    (hobeys : (Machine.holding limit (Closure.LoopFree size)).Obeys .write
      (Machine.holding limit (Closure.LoopFree size)).GoodOutcome body)
    (hhandler : Ends size depth handler) : Ends size depth (rescue body handler) := by
  intro machine hholds hdepth
  have hfinished := hbody machine hholds hdepth
  cases hresult : body machine with
  | ok outcome next => exact finished_of_eq_ok (rescue_of_eq_ok hresult handler)
  | error reason next =>
    rw [rescue_of_eq_error hresult]
    split
    · obtain ⟨hkeeps, hnext⟩ := hobeys.ready_of_eq_error hholds hresult
      exact hhandler next hnext (hkeeps.depth.trans hdepth)
    · rwa [hresult] at hfinished

include hevaluate hexecute in
theorem ends_executeWith (rounds : Nat) {statement : Stmt} (hstatement : statement.LoopFree)
    (hfuel : enough limit size depth (sizeOf statement) ≤ fuel + 1) :
    Ends size depth
      (executeWith limit rounds (evaluate limit fuel) (runBody (execute limit fuel)) statement) := by
  rw [enough] at hfuel
  have hobeys := (Machine.holding limit (Closure.LoopFree size)).obeys_evaluate fuel
  have hrun {body : List Stmt} (hbody : LoopFreeBody body)
      (hless : sizeOf body < sizeOf statement) :
      Ends size depth (runBody (execute limit fuel) body) :=
    ends_runBody hexecute hbody (by rw [enough]; omega)
  cases hstatement with
  | pass | breakLoop | continueLoop => exact ends_of_finished nofun
  | assign target value span =>
    simp only [Stmt.assign.sizeOf_spec] at hfuel
    refine (hevaluate depth value (by rw [enough]; omega)).bind (hobeys value) ?_
    intro _ _
    exact ends_of_finished nofun
  | returnWith value span =>
    cases value with
    | none => exact ends_of_finished nofun
    | some value =>
      simp only [Stmt.returnWith.sizeOf_spec, Option.some.sizeOf_spec] at hfuel
      refine (hevaluate depth value (by rw [enough]; omega)).bind (hobeys value) ?_
      intro _ _
      exact ends_of_finished nofun
  | @branch condition body elifs otherwise span hbody helifs hotherwise =>
    simp only [Stmt.branch.sizeOf_spec] at hfuel hrun
    refine ends_runBranches hobeys ?_ ?_
    · cases otherwise with
      | none => exact ends_of_finished nofun
      | some body =>
        refine hrun (hotherwise body rfl) ?_
        simp only [Option.some.sizeOf_spec, Option.getD_some]
        omega
    · refine List.forall_mem_cons.mpr ⟨⟨?_, ?_⟩, ?_⟩
      · exact hevaluate depth condition (by rw [enough]; omega)
      · exact hrun hbody (by dsimp only; omega)
      · intro branch hbranch
        have hless := List.sizeOf_lt_of_mem hbranch
        obtain ⟨condition, body⟩ := branch
        simp only [Prod.mk.sizeOf_spec] at hless
        exact ⟨hevaluate depth condition (by rw [enough]; omega),
          hrun (helifs _ hbranch) (by dsimp only; omega)⟩
  | @guarded body handler span hbody hhandler =>
    simp only [Stmt.guarded.sizeOf_spec] at hrun
    exact ends_rescue (hrun hbody (by omega))
      ((Machine.holding limit _).obeys_executeBody fuel body) (hrun hhandler (by omega))
  | print args span =>
    simp only [Stmt.print.sizeOf_spec] at hfuel
    refine (ends_evaluateAll hevaluate (by rw [enough]; omega)).bind
      (Law.obeys_evaluateAll hobeys args) ?_
    intro values _
    exact ends_of_finished fun machine =>
      finished_bind (finished_printValues span values machine) fun _ _ _ => nofun
  | input prompt span =>
    exact ends_of_finished fun machine =>
      finished_bind (finished_readInput span prompt machine) fun _ _ _ => nofun
  | call name args span =>
    simp only [Stmt.call.sizeOf_spec] at hfuel
    have hargs : enough limit size depth (sizeOf args) ≤ fuel := by
      rw [enough]
      omega
    have hcall := ends_call hevaluate hexecute span name hargs
    exact fun machine hholds hdepth =>
      finished_bind (hcall machine hholds hdepth) fun _ _ _ => nofun
  | update name op span =>
    exact ends_of_finished fun machine =>
      finished_bind (finished_updateName span name op machine) fun _ _ _ => nofun

end

/-- On enough fuel, code without loops comes to an end: by induction on the fuel, of which
    every part of the code needs less than the whole. -/
theorem ends_run (limit size fuel : Nat) :
    (∀ depth expression, enough limit size depth (sizeOf expression) ≤ fuel →
        Ends size depth (evaluate limit fuel expression)) ∧
      ∀ depth statement, statement.LoopFree → enough limit size depth (sizeOf statement) ≤ fuel →
        Ends size depth (execute limit fuel statement) := by
  induction fuel with
  | zero =>
    constructor
    · intro depth expression hfuel
      cases expression <;> simp [enough] at hfuel
    · intro depth statement _ hfuel
      cases statement <;> simp [enough] at hfuel
  | succ fuel ih =>
    obtain ⟨hevaluate, hexecute⟩ := ih
    constructor
    · intro depth expression hfuel machine
      rw [evaluate_succ]
      exact ends_evaluateWith hevaluate hexecute hfuel machine
    · intro depth statement hstatement hfuel machine
      rw [execute_succ]
      exact ends_executeWith hevaluate hexecute fuel hstatement hfuel machine

theorem finished_executeBody {body : List Stmt} (hbody : LoopFreeBody body)
    (hholds : machine.Holds (Closure.LoopFree size))
    (hfuel : enough limit size machine.depth (sizeOf body) ≤ fuel) :
    Finished (executeBody limit fuel body machine) :=
  ends_runBody (ends_run limit size fuel).2 hbody hfuel machine hholds rfl

theorem finished_inFrame {frame : Frame} {body : Eval α}
    (hbody : Finished (body (machine.inner frame))) : Finished (inFrame frame body machine) := by
  cases hresult : body (machine.inner frame) with
  | ok value next =>
    rw [inFrame_of_eq_ok hresult]
    nofun
  | error reason next =>
    rw [inFrame_of_eq_error hresult]
    rintro final hreason
    cases hreason
    exact hbody next hresult

theorem finished_concluded {body : Eval α} (hbody : Finished (body machine)) :
    Finished (concluded body machine) := by
  unfold concluded
  cases hresult : body machine with
  | ok value next => exact finished_flush (.single 0) next
  | error reason next =>
    have hreason : reason ≠ .outOfFuel := fun hfuel => hbody next (hfuel ▸ hresult)
    dsimp only
    split <;> exact fun final hfinal => hreason (EStateM.Result.error.inj hfinal).1

theorem finished_runLine {line : Line} (hperform : Finished (perform limit fuel line machine)) :
    Finished (runLine limit fuel line machine) := by
  cases hresult : perform limit fuel line machine with
  | ok effect next =>
    rw [runLine_of_perform hresult]
    exact finished_bind (finished_flush (.single 0) next) fun _ _ _ => nofun
  | error reason next =>
    have hreason : reason ≠ .outOfFuel := fun hfuel => hperform next (hfuel ▸ hresult)
    have hthrow (middle : Machine) : Finished ((throw reason : Eval (Option Value)) middle) :=
      fun final hfinal => hreason (EStateM.Result.error.inj hfinal).1
    rw [runLine_of_perform_error hresult]
    obtain hnothing | hflush := giveUp_cases line reason
    · rw [hnothing]
      exact hthrow next
    · rw [hflush]
      exact finished_bind (finished_flush (.single 0) next) fun _ middle _ => hthrow middle

/-- No body is larger than all functions together. -/
theorem loopFree_closure {functions : List FunctionDef}
    (hfunctions : ∀ function ∈ functions, LoopFreeBody function.body) :
    ∀ function ∈ functions, ∀ stamp, (function.closure stamp).LoopFree (sizeOf functions) := by
  intro function hmem stamp
  have hless := List.sizeOf_lt_of_mem hmem
  have hbody : sizeOf function.body < sizeOf function := by
    obtain ⟨name, params, body, span⟩ := function
    simp only [FunctionDef.mk.sizeOf_spec]
    omega
  have hsize : sizeOf function.body ≤ sizeOf functions := by omega
  exact ⟨hfunctions function hmem, hsize⟩

theorem finished_runProgram {program : Program} (hprogram : program.LoopFree)
    (hholds : (machine.definedAll program.functions).Holds (Closure.LoopFree size))
    (hfuel : enough limit size machine.depth (program.main.elim 0 (sizeOf ·.body)) ≤ fuel) :
    Finished (runProgram limit fuel program machine) := by
  cases hmain : program.main with
  | none =>
    rw [runProgram_of_main_eq_none limit fuel machine hmain]
    nofun
  | some main =>
    have hdepth := (machine.restored_definedAll program.functions).depth
    have hinner : ((machine.definedAll program.functions).inner Machine.mainFrame).Holds
        (Closure.LoopFree size) := hholds.inner nofun
    rw [runProgram, bind_of_eq_ok (forM_defineFunction program.functions machine), hmain]
    refine finished_concluded (finished_inFrame (finished_executeBody (hprogram.main main hmain)
      hinner ?_))
    change enough limit size (machine.definedAll program.functions).depth _ ≤ fuel
    rwa [hdepth, ← Option.elim_some 0 (fun main : MainEntry => sizeOf main.body) main, ← hmain]

theorem finished_perform {line : Line} (hline : line.LoopFree)
    (hholds : machine.Holds (Closure.LoopFree size))
    (hfuel : enough limit size machine.depth (sizeOf line) ≤ fuel) :
    Finished (perform limit fuel line machine) := by
  rw [enough] at hfuel
  cases line with
  | empty | definition => nofun
  | expression expression =>
    simp only [Line.expression.sizeOf_spec] at hfuel
    have hfuel : enough limit size machine.depth (sizeOf expression) ≤ fuel := by
      rw [enough]
      omega
    exact finished_bind ((ends_run limit size fuel).1 _ expression hfuel machine hholds rfl)
      fun _ _ _ => nofun
  | statements body =>
    simp only [Line.statements.sizeOf_spec] at hfuel
    refine finished_bind (finished_executeBody hline hholds ?_) fun _ _ _ => nofun
    rw [enough]
    omega

/-- Whatever is without loops comes to an end, however functions call each other or
    themselves, be it in a handler that has caught the recursion limit: every program, and
    every line of a session in which no function with a loop has been defined. -/
theorem finished_of_loopFree (settings : Settings) :
    (∀ program : Program, program.LoopFree → ∀ input output, ∃ enough, ∀ fuel, enough ≤ fuel →
        Finished (runProgram settings.callDepthLimit fuel program (.start input output))) ∧
      ∀ functions machine, Machine.Session settings.callDepthLimit functions machine →
        (∀ function ∈ functions, LoopFreeBody function.body) →
        ∀ line : Line, line.LoopFree → ∃ enough, ∀ fuel, enough ≤ fuel →
          Finished (perform settings.callDepthLimit fuel line machine) ∧
            Finished (runLine settings.callDepthLimit fuel line machine) := by
  constructor
  · intro program hprogram input output
    have hholds := (Machine.holds_start _ input output).definedAll program.functions
      (loopFree_closure hprogram.functions)
    refine ⟨enough settings.callDepthLimit (sizeOf program.functions) 0
      (program.main.elim 0 (sizeOf ·.body)), ?_⟩
    intro fuel hfuel
    exact finished_runProgram hprogram hholds hfuel
  · intro functions machine hsession hfunctions line hline
    have hholds := hsession.holds (loopFree_closure hfunctions)
    refine ⟨enough settings.callDepthLimit (sizeOf functions) machine.depth (sizeOf line), ?_⟩
    intro fuel hfuel
    have hperform := finished_perform hline hholds hfuel
    exact ⟨hperform, finished_runLine hperform⟩

/-- A function that calls itself, and once more when that fails. -/
def retrying : FunctionDef :=
  { name := "f", params := [],
    body := [.guarded [.call "f" [] ⟨22, 25⟩] [.call "f" [] ⟨40, 43⟩] ⟨11, 45⟩], span := ⟨0, 47⟩ }

/-- Calls of it come to an end, in a program as well as in a session. -/
theorem finished_of_loopFree_retrying :
    (∃ enough, ∀ fuel, enough ≤ fuel → Finished
        (runProgram 256 fuel ⟨[retrying], some (.single (.call "f" [] ⟨60, 63⟩))⟩ (.start {} {}))) ∧
      ∃ machine, Machine.Session 256 [retrying] machine ∧ ∃ enough, ∀ fuel, enough ≤ fuel →
        Finished (perform 256 fuel (.expression (.call "f" [] ⟨0, 3⟩)) machine) ∧
          Finished (runLine 256 fuel (.expression (.call "f" [] ⟨0, 3⟩)) machine) := by
  have hbody : LoopFreeBody retrying.body := by
    refine List.forall_mem_singleton.mpr (.guarded ?_ ?_)
    · exact List.forall_mem_singleton.mpr (.call "f" [] _)
    · exact List.forall_mem_singleton.mpr (.call "f" [] _)
  have hfunctions : ∀ function ∈ [retrying], LoopFreeBody function.body :=
    List.forall_mem_singleton.mpr hbody
  have hdefined : Finished (perform 256 0 (.definition retrying) (.start {} {})) := nofun
  have hsession : Machine.Session 256 [retrying] _ := .performed (.start {} {}) hdefined
  obtain ⟨hprograms, hlines⟩ := finished_of_loopFree {}
  refine ⟨hprograms _ ⟨hfunctions, ?_⟩ {} {}, _, hsession,
    hlines [retrying] _ hsession hfunctions _ trivial⟩
  rintro main hmain
  cases hmain
  exact List.forall_mem_singleton.mpr (.call "f" [] _)

end Eval
end KawaiiLang
