import KawaiiLang.Proofs.Eval.Frame
import KawaiiLang.Proofs.Eval.Operator

namespace KawaiiLang

/-- The two ways in which a running program deals with a machine: an expression reads
    its bindings, and a statement may write to them. -/
inductive Access where
  | read
  | write

/-- A law about what running code may do to a machine in which calls nest at most `limit`
    deep. The single steps of a run have to keep it; then every run does. -/
structure Law (limit : Nat) where
  /-- The machines that the law speaks about. -/
  ready : Machine → Prop
  /-- The values that a machine may hold and a computation may give. -/
  good : Value → Prop
  /-- What is allowed to happen between two states of a machine. -/
  change : Access → Machine → Machine → Prop
  refl (access : Access) (machine : Machine) : change access machine machine
  trans {access : Access} {first second third : Machine} :
    change access first second → change access second third → change access first third
  write_of_read {first second : Machine} : change .read first second → change .write first second
  ready_of_change {access : Access} {first second : Machine} :
    ready first → change access first second → ready second
  good_of_type {value : Value} : value.type ≠ .function → good value
  good_of_get {machine : Machine} {name : String} {value : Value} : ready machine →
    machine.store.get? machine.scope name = some value → good value
  input (machine : Machine) (input : Input) : change .read machine { machine with input }
  output (machine : Machine) (output : Sink) : change .read machine { machine with output }
  define {machine : Machine} {value : Value} (name : String) : ready machine → good value →
    change .write machine { machine with store := machine.store.define machine.scope name value }
  update {machine : Machine} {name : String} {op : UpdateOp} {current value : Value} :
    ready machine → machine.store.get? machine.scope name = some current →
    op.apply name current = .ok value →
    change .write machine
      { machine with store := (machine.store.assign? machine.scope name value).getD machine.store }
  enter {machine : Machine} {closure : Closure} {args : List Value} : ready machine →
    machine.depth < limit → good (.function closure) → (∀ value ∈ args, good value) →
    ready (machine.entered closure args) ∧
      ∀ next, change .write (machine.entered closure args) next →
        change .read machine (next.left machine.scope)

namespace Law

variable {limit : Nat} {law : Law limit} {access : Access} {α β : Type}

/-- A computation obeys a law if, on a machine that the law speaks about, it only does
    what is allowed, in whichever way it ends, and gives a value as it should be. -/
def Obeys (law : Law limit) (access : Access) (result : α → Prop) (computation : Eval α) : Prop :=
  ∀ machine, law.ready machine →
    law.change access machine (Eval.final (computation machine)) ∧
      ∀ value next, computation machine = .ok value next → result value

/-- What control may leave a statement with. -/
def GoodOutcome (law : Law limit) : Outcome → Prop
  | .returned value => law.good value
  | _ => True

theorem Obeys.ready_of_eq_ok {result : α → Prop} {computation : Eval α}
    (hobeys : law.Obeys access result computation) {machine next : Machine} {value : α}
    (hready : law.ready machine) (hvalue : computation machine = .ok value next) :
    law.change access machine next ∧ law.ready next ∧ result value := by
  obtain ⟨hchange, hresult⟩ := hobeys machine hready
  rw [hvalue] at hchange
  exact ⟨hchange, law.ready_of_change hready hchange, hresult value next hvalue⟩

theorem Obeys.ready_of_eq_error {result : α → Prop} {computation : Eval α}
    (hobeys : law.Obeys access result computation) {machine next : Machine} {reason : Interrupt}
    (hready : law.ready machine) (herror : computation machine = .error reason next) :
    law.change access machine next ∧ law.ready next := by
  obtain ⟨hchange, _⟩ := hobeys machine hready
  rw [herror] at hchange
  exact ⟨hchange, law.ready_of_change hready hchange⟩

theorem obeys_pure {result : α → Prop} {value : α} (hvalue : result value) :
    law.Obeys access result (pure value) := by
  intro machine _
  refine ⟨law.refl access machine, ?_⟩
  intro _ _ heq
  cases heq
  exact hvalue

theorem obeys_throw {result : α → Prop} (reason : Interrupt) :
    law.Obeys access result (throw reason) := by
  intro machine _
  exact ⟨law.refl access machine, nofun⟩

theorem obeys_raise {result : α → Prop} (span : Span) (fault : RuntimeFault) :
    law.Obeys access result (Eval.raise span fault) :=
  obeys_throw _

theorem obeys_ofExcept {result : α → Prop} (span : Span) {outcome : Except RuntimeFault α}
    (hresult : ∀ value, outcome = .ok value → result value) :
    law.Obeys access result (Eval.ofExcept span outcome) := by
  cases outcome with
  | ok value => exact obeys_pure (hresult value rfl)
  | error fault => exact obeys_raise span fault

/-- Steps that obey a law one after the other obey it together. -/
theorem Obeys.bind {first : α → Prop} {second : β → Prop} {step : Eval α} {next : α → Eval β}
    (hstep : law.Obeys access first step)
    (hnext : ∀ value, first value → law.Obeys access second (next value)) :
    law.Obeys access second (step >>= next) := by
  intro machine hready
  cases hresult : step machine with
  | ok value middle =>
    obtain ⟨hchange, hmiddle, hvalue⟩ := hstep.ready_of_eq_ok hready hresult
    obtain ⟨hlater, hlast⟩ := hnext value hvalue middle hmiddle
    rw [bind_of_eq_ok hresult]
    exact ⟨law.trans hchange hlater, hlast⟩
  | error reason middle =>
    obtain ⟨hchange, _⟩ := hstep.ready_of_eq_error hready hresult
    rw [bind_of_eq_error hresult]
    exact ⟨hchange, nofun⟩

theorem Obeys.write {result : α → Prop} {computation : Eval α}
    (hread : law.Obeys .read result computation) : law.Obeys .write result computation := by
  intro machine hready
  obtain ⟨hchange, hresult⟩ := hread machine hready
  exact ⟨law.write_of_read hchange, hresult⟩

theorem obeys_find? (name : String) :
    law.Obeys access (fun found => ∀ value ∈ found, law.good value) (Eval.find? name) := by
  intro machine hready
  refine ⟨law.refl access machine, ?_⟩
  intro found _ hfound value hvalue
  cases hfound
  exact law.good_of_get hready hvalue

theorem obeys_write (span : Span) (text : String) :
    law.Obeys .read (fun _ => True) (Eval.write span text) := by
  intro machine _
  refine ⟨?_, fun _ _ _ => trivial⟩
  rw [Eval.write_apply, Eval.final_ended]
  exact law.output _ _

theorem obeys_flush (span : Span) : law.Obeys .read (fun _ => True) (Eval.flush span) := by
  intro machine _
  refine ⟨?_, fun _ _ _ => trivial⟩
  rw [Eval.flush_apply, Eval.final_ended]
  exact law.output _ _

theorem obeys_readLine (span : Span) : law.Obeys .read law.good (Eval.readLine span) := by
  intro machine _
  rw [Eval.readLine_apply]
  split
  · exact ⟨law.refl .read machine, nofun⟩
  · split
    · refine ⟨law.input machine _, ?_⟩
      intro _ _ hvalue
      cases hvalue
      exact law.good_of_type nofun
    · exact ⟨law.input machine _, nofun⟩

theorem obeys_printValues (span : Span) (values : List Value) :
    law.Obeys .read (fun _ => True) (Eval.printValues span values) :=
  (obeys_write span _).bind fun _ _ => obeys_write span _

theorem obeys_readInput (span : Span) (prompt : Option String) :
    law.Obeys .read law.good (Eval.readInput span prompt) := by
  have hread : law.Obeys .read law.good (Eval.flush span >>= fun _ => Eval.readLine span) :=
    (obeys_flush span).bind fun _ _ => obeys_readLine span
  cases prompt with
  | none => exact hread
  | some text => exact (obeys_write span text).bind fun _ _ => hread

theorem obeys_define {value : Value} (name : String) (hvalue : law.good value) :
    law.Obeys .write (fun _ => True) (Eval.define name value) := by
  intro machine hready
  exact ⟨law.define name hready hvalue, fun _ _ _ => trivial⟩

theorem obeys_updateName (span : Span) (name : String) (op : UpdateOp) :
    law.Obeys .write (fun _ => True) (Eval.updateName span name op) := by
  intro machine hready
  refine ⟨?_, fun _ _ _ => trivial⟩
  rw [Eval.updateName, bind_of_eq_ok (Eval.find?_apply name machine)]
  cases hcurrent : machine.store.get? machine.scope name with
  | none => exact law.refl .write machine
  | some current =>
    dsimp only
    cases hvalue : op.apply name current with
    | ok value => exact law.update hready hcurrent hvalue
    | error fault => exact law.refl .write machine

theorem obeys_callee (span : Span) (name : String) (given : Nat) :
    law.Obeys .read (fun closure => law.good (.function closure)) (Eval.callee span name given) := by
  refine (obeys_find? name).bind ?_
  intro found hfound
  cases found with
  | none => exact obeys_raise span _
  | some value =>
    cases value with
    | function closure =>
      dsimp only
      split
      · exact obeys_pure (hfound _ rfl)
      · exact obeys_raise span _
    | _ => exact obeys_raise span _

section

-- How the parts of an expression or a statement are evaluated and run.
variable {evaluate : Expr → Eval Value} {run : List Stmt → Eval Outcome}
  (hevaluate : ∀ expression, law.Obeys .read law.good (evaluate expression))
  (hrun : ∀ body, law.Obeys .write law.GoodOutcome (run body))

include hevaluate in
theorem obeys_evaluateAll (expressions : List Expr) :
    law.Obeys .read (fun values => ∀ value ∈ values, law.good value)
      (Eval.evaluateAll evaluate expressions) := by
  induction expressions with
  | nil => exact obeys_pure nofun
  | cons first rest ih =>
    refine (hevaluate first).bind ?_
    intro value hvalue
    refine ih.bind ?_
    intro values hvalues
    exact obeys_pure (List.forall_mem_cons.mpr ⟨hvalue, hvalues⟩)

theorem obeys_runBody {execute : Stmt → Eval Outcome}
    (hexecute : ∀ statement, law.Obeys .write law.GoodOutcome (execute statement))
    (body : List Stmt) : law.Obeys .write law.GoodOutcome (Eval.runBody execute body) := by
  induction body with
  | nil => exact obeys_pure trivial
  | cons first rest ih =>
    refine (hexecute first).bind ?_
    intro outcome houtcome
    cases outcome with
    | normal => exact ih
    | returned | broke | continued => exact obeys_pure houtcome

include hevaluate hrun in
theorem obeys_runBranches (otherwise : List Stmt) (branches : List (Expr × List Stmt)) :
    law.Obeys .write law.GoodOutcome (Eval.runBranches evaluate run otherwise branches) := by
  induction branches with
  | nil => exact hrun otherwise
  | cons branch rest ih =>
    obtain ⟨condition, body⟩ := branch
    refine (hevaluate condition).write.bind ?_
    intro value _
    split
    · exact hrun body
    · exact ih

theorem obeys_runLoop {condition : Eval Value} {body : Eval Outcome}
    (hcondition : law.Obeys .read law.good condition)
    (hbody : law.Obeys .write law.GoodOutcome body) (bound : Nat) :
    law.Obeys .write law.GoodOutcome (Eval.runLoop condition body bound) := by
  induction bound with
  | zero => exact obeys_throw _
  | succ bound ih =>
    refine hcondition.write.bind ?_
    intro value _
    split
    · refine hbody.bind ?_
      intro outcome houtcome
      cases outcome with
      | normal | continued => exact ih
      | broke => exact obeys_pure trivial
      | returned value => exact obeys_pure houtcome
    · exact obeys_pure trivial

include hrun in
theorem obeys_runLoopBody (body : LoopBody) :
    law.Obeys .write law.GoodOutcome (Eval.runLoopBody run body) := by
  cases body with
  | breakOnly | continueOnly => exact obeys_pure trivial
  | block body => exact hrun body

/-- A handler goes on from where the error left the machine. -/
theorem obeys_rescue {body handler : Eval Outcome}
    (hbody : law.Obeys .write law.GoodOutcome body)
    (hhandler : law.Obeys .write law.GoodOutcome handler) :
    law.Obeys .write law.GoodOutcome (Eval.rescue body handler) := by
  intro machine hready
  cases hresult : body machine with
  | ok outcome next =>
    obtain ⟨hchange, _, houtcome⟩ := hbody.ready_of_eq_ok hready hresult
    rw [Eval.rescue_of_eq_ok hresult]
    refine ⟨hchange, ?_⟩
    intro _ _ heq
    cases heq
    exact houtcome
  | error reason next =>
    obtain ⟨hchange, hnext⟩ := hbody.ready_of_eq_error hready hresult
    rw [Eval.rescue_of_eq_error hresult]
    split
    · obtain ⟨hlater, houtcome⟩ := hhandler next hnext
      exact ⟨law.trans hchange hlater, houtcome⟩
    · exact ⟨hchange, nofun⟩

include hrun in
/-- A call does not show in the caller's machine but for what an expression may do. -/
theorem obeys_enter (span : Span) (name : String) {closure : Closure} {args : List Value}
    (hclosure : law.good (.function closure)) (hargs : ∀ value ∈ args, law.good value) :
    law.Obeys .read law.good (Eval.enter limit run span name closure args) := by
  intro machine hready
  by_cases hdepth : machine.depth < limit
  · obtain ⟨hentered, hleave⟩ := law.enter hready hdepth hclosure hargs
    have hbody := hrun closure.body
    cases hresult : run closure.body (machine.entered closure args) with
    | ok outcome next =>
      obtain ⟨hchange, _, houtcome⟩ := hbody.ready_of_eq_ok hentered hresult
      rw [Eval.enter_of_eq_ok hdepth hresult]
      refine ⟨hleave next hchange, ?_⟩
      intro value _ hvalue
      cases hvalue
      cases outcome with
      | returned value => exact houtcome
      | normal | broke | continued => exact law.good_of_type nofun
    | error reason next =>
      obtain ⟨hchange, _⟩ := hbody.ready_of_eq_error hentered hresult
      rw [Eval.enter_of_eq_error hdepth hresult]
      exact ⟨hleave next hchange, nofun⟩
  · rw [Eval.enter_of_limit_le (Nat.not_lt.mp hdepth)]
    exact ⟨law.refl .read machine, nofun⟩

include hevaluate hrun in
theorem obeys_call (span : Span) (name : String) (args : List Expr) :
    law.Obeys .read law.good (Eval.call limit evaluate run span name args) := by
  refine (obeys_callee span name args.length).bind ?_
  intro closure hclosure
  refine (obeys_evaluateAll hevaluate args).bind ?_
  intro values hvalues
  exact obeys_enter hrun span name hclosure hvalues

include hevaluate hrun in
theorem obeys_evaluateWith (expression : Expr) :
    law.Obeys .read law.good (Eval.evaluateWith limit evaluate run expression) := by
  cases expression with
  | literal value =>
    refine obeys_pure (law.good_of_type ?_)
    cases value <;> nofun
  | name name span =>
    refine (obeys_find? name).bind ?_
    intro found hfound
    cases found with
    | none => exact obeys_raise span _
    | some value => exact obeys_pure (hfound value rfl)
  | unary op operand span =>
    refine (hevaluate operand).bind ?_
    intro value _
    exact obeys_ofExcept span fun _ happly => law.good_of_type (UnaryOp.apply_type happly)
  | binary op left right span =>
    refine (hevaluate left).bind ?_
    intro first _
    refine (hevaluate right).bind ?_
    intro second _
    exact obeys_ofExcept span fun _ happly => law.good_of_type (BinaryOp.apply_type happly)
  | group inner => exact hevaluate inner
  | print args span =>
    refine (obeys_evaluateAll hevaluate args).bind ?_
    intro values _
    refine (obeys_printValues span values).bind ?_
    intro _ _
    exact obeys_pure (law.good_of_type nofun)
  | input prompt span => exact obeys_readInput span prompt
  | call name args span => exact obeys_call hevaluate hrun span name args

include hevaluate hrun in
theorem obeys_executeWith (rounds : Nat) (statement : Stmt) :
    law.Obeys .write law.GoodOutcome (Eval.executeWith limit rounds evaluate run statement) := by
  cases statement with
  | pass | breakLoop | continueLoop => exact obeys_pure trivial
  | assign target value =>
    refine (hevaluate value).write.bind ?_
    intro value hvalue
    refine (obeys_define target hvalue).bind ?_
    intro _ _
    exact obeys_pure trivial
  | returnWith value =>
    cases value with
    | none => exact obeys_pure (law.good_of_type nofun)
    | some value =>
      refine (hevaluate value).write.bind ?_
      intro value hvalue
      exact obeys_pure hvalue
  | loop condition body =>
    exact obeys_runLoop (hevaluate condition) (obeys_runLoopBody hrun body) rounds
  | branch condition body elifs otherwise =>
    exact obeys_runBranches hevaluate hrun _ ((condition, body) :: elifs)
  | guarded body handler => exact obeys_rescue (hrun body) (hrun handler)
  | print args span =>
    refine (obeys_evaluateAll hevaluate args).write.bind ?_
    intro values _
    refine (obeys_printValues span values).write.bind ?_
    intro _ _
    exact obeys_pure trivial
  | input prompt span =>
    refine (obeys_readInput span prompt).write.bind ?_
    intro _ _
    exact obeys_pure trivial
  | call name args span =>
    refine (obeys_call hevaluate hrun span name args).write.bind ?_
    intro _ _
    exact obeys_pure trivial
  | update name op span =>
    refine (obeys_updateName span name op).bind ?_
    intro _ _
    exact obeys_pure trivial

end

/-- Every run obeys every law: by induction on the fuel, as all that a run does is made of
    the steps that the law allows. -/
theorem obeys_run (law : Law limit) (fuel : Nat) :
    (∀ expression, law.Obeys .read law.good (Eval.evaluate limit fuel expression)) ∧
      ∀ statement, law.Obeys .write law.GoodOutcome (Eval.execute limit fuel statement) := by
  induction fuel with
  | zero =>
    constructor
    · intro expression
      rw [Eval.evaluate_zero]
      exact obeys_throw _
    · intro statement
      rw [Eval.execute_zero]
      exact obeys_throw _
  | succ fuel ih =>
    obtain ⟨hevaluate, hexecute⟩ := ih
    constructor
    · intro expression
      rw [Eval.evaluate_succ]
      exact obeys_evaluateWith hevaluate (obeys_runBody hexecute) expression
    · intro statement
      rw [Eval.execute_succ]
      exact obeys_executeWith hevaluate (obeys_runBody hexecute) fuel statement

theorem obeys_evaluate (law : Law limit) (fuel : Nat) (expression : Expr) :
    law.Obeys .read law.good (Eval.evaluate limit fuel expression) :=
  (law.obeys_run fuel).1 expression

theorem obeys_execute (law : Law limit) (fuel : Nat) (statement : Stmt) :
    law.Obeys .write law.GoodOutcome (Eval.execute limit fuel statement) :=
  (law.obeys_run fuel).2 statement

theorem obeys_executeBody (law : Law limit) (fuel : Nat) (body : List Stmt) :
    law.Obeys .write law.GoodOutcome (Eval.executeBody limit fuel body) :=
  obeys_runBody (law.obeys_execute fuel) body

end Law
end KawaiiLang
