import KawaiiLang.Proofs.Eval.Law
import KawaiiLang.Proofs.Eval.Task

namespace KawaiiLang.Eval

/-- `Part limit task machine part next`: while `task` is being done from `machine` on, there
    is a moment at which `part` begins on `next`, in the same function body. -/
inductive Part (limit : Nat) : Task → Machine → Task → Machine → Prop where
  | operand {op : UnaryOp} {operand : Expr} {span : Span} {machine : Machine} :
      Part limit (.evaluate (.unary op operand span)) machine (.evaluate operand) machine
  | left {op : BinaryOp} {left right : Expr} {span : Span} {machine : Machine} :
      Part limit (.evaluate (.binary op left right span)) machine (.evaluate left) machine
  | right {op : BinaryOp} {left right : Expr} {span : Span} {machine next : Machine} {fuel : Nat}
      {value : Value} (hleft : evaluate limit fuel left machine = .ok value next) :
      Part limit (.evaluate (.binary op left right span)) machine (.evaluate right) next
  | inner {inner : Expr} {span : Span} {machine : Machine} :
      Part limit (.evaluate (.group inner span)) machine (.evaluate inner) machine
  | printed {args : List Expr} {span : Span} {machine : Machine} :
      Part limit (.evaluate (.print args span)) machine (.evaluateAll args) machine
  | called {name : String} {args : List Expr} {span : Span} {machine : Machine} :
      Part limit (.evaluate (.call name args span)) machine (.call name args span) machine
  | firstValue {first : Expr} {rest : List Expr} {machine : Machine} :
      Part limit (.evaluateAll (first :: rest)) machine (.evaluate first) machine
  | otherValues {first : Expr} {rest : List Expr} {machine next : Machine} {fuel : Nat}
      {value : Value} (hfirst : evaluate limit fuel first machine = .ok value next) :
      Part limit (.evaluateAll (first :: rest)) machine (.evaluateAll rest) next
  | arguments {name : String} {args : List Expr} {span : Span} {machine : Machine}
      {closure : Closure}
      (hclosure : machine.store.get? machine.scope name = some (.function closure))
      (harity : closure.params.length = args.length) :
      Part limit (.call name args span) machine (.evaluateAll args) machine
  | assigned {target : String} {value : Expr} {span : Span} {machine : Machine} :
      Part limit (.execute (.assign target value span)) machine (.evaluate value) machine
  | returned {value : Expr} {span : Span} {machine : Machine} :
      Part limit (.execute (.returnWith (some value) span)) machine (.evaluate value) machine
  | printing {args : List Expr} {span : Span} {machine : Machine} :
      Part limit (.execute (.print args span)) machine (.evaluateAll args) machine
  | calling {name : String} {args : List Expr} {span : Span} {machine : Machine} :
      Part limit (.execute (.call name args span)) machine (.call name args span) machine
  | looping {condition : Expr} {body : LoopBody} {span : Span} {machine : Machine} :
      Part limit (.execute (.loop condition body span)) machine (.loop condition body) machine
  | condition {condition : Expr} {body : LoopBody} {machine : Machine} :
      Part limit (.loop condition body) machine (.evaluate condition) machine
  | round {condition : Expr} {body : List Stmt} {machine next : Machine} {fuel : Nat}
      {value : Value} (hcondition : evaluate limit fuel condition machine = .ok value next)
      (hvalue : value.isTruthy = true) :
      Part limit (.loop condition (.block body)) machine (.run body) next
  | otherRounds {condition : Expr} {body : LoopBody} {machine middle next : Machine} {fuel : Nat}
      {value : Value} {outcome : Outcome}
      (hcondition : evaluate limit fuel condition machine = .ok value middle)
      (hvalue : value.isTruthy = true)
      (hbody : runLoopBody (executeBody limit fuel) body middle = .ok outcome next)
      (houtcome : outcome = .normal ∨ outcome = .continued) :
      Part limit (.loop condition body) machine (.loop condition body) next
  | choosing {condition : Expr} {body : List Stmt} {elifs : List (Expr × List Stmt)}
      {otherwise : Option (List Stmt)} {span : Span} {machine : Machine} :
      Part limit (.execute (.branch condition body elifs otherwise span)) machine
        (.choose ((condition, body) :: elifs) (otherwise.getD [])) machine
  | test {condition : Expr} {body otherwise : List Stmt} {rest : List (Expr × List Stmt)}
      {machine : Machine} :
      Part limit (.choose ((condition, body) :: rest) otherwise) machine (.evaluate condition) machine
  | chosen {condition : Expr} {body otherwise : List Stmt} {rest : List (Expr × List Stmt)}
      {machine next : Machine} {fuel : Nat} {value : Value}
      (hcondition : evaluate limit fuel condition machine = .ok value next)
      (hvalue : value.isTruthy = true) :
      Part limit (.choose ((condition, body) :: rest) otherwise) machine (.run body) next
  | passedOver {condition : Expr} {body otherwise : List Stmt} {rest : List (Expr × List Stmt)}
      {machine next : Machine} {fuel : Nat} {value : Value}
      (hcondition : evaluate limit fuel condition machine = .ok value next)
      (hvalue : value.isTruthy = false) :
      Part limit (.choose ((condition, body) :: rest) otherwise) machine (.choose rest otherwise)
        next
  | otherwise {otherwise : List Stmt} {machine : Machine} :
      Part limit (.choose [] otherwise) machine (.run otherwise) machine
  | guarded {body handler : List Stmt} {span : Span} {machine : Machine} :
      Part limit (.execute (.guarded body handler span)) machine (.run body) machine
  | handler {body handler : List Stmt} {span : Span} {machine next : Machine} {fuel : Nat}
      {error : RuntimeError}
      (hbody : executeBody limit fuel body machine = .error (.fault error) next) :
      Part limit (.execute (.guarded body handler span)) machine (.run handler) next
  | firstStatement {first : Stmt} {rest : List Stmt} {machine : Machine} :
      Part limit (.run (first :: rest)) machine (.execute first) machine
  | otherStatements {first : Stmt} {rest : List Stmt} {machine next : Machine} {fuel : Nat}
      (hfirst : execute limit fuel first machine = .ok .normal next) :
      Part limit (.run (first :: rest)) machine (.run rest) next

/-- What is done before a part begins is what running code may do. -/
theorem Part.change {limit : Nat} {task part : Task} {machine next : Machine}
    (hpart : Part limit task machine part next) (law : Law limit) (hready : law.ready machine) :
    law.change .write machine next := by
  have hevaluate {fuel : Nat} {expression : Expr} {value : Value} {next : Machine}
      (hvalue : evaluate limit fuel expression machine = .ok value next) :
      law.change .write machine next ∧ law.ready next := by
    have hobeys := (law.obeys_evaluate fuel expression).write
    obtain ⟨hchange, hnext, _⟩ := hobeys.ready_of_eq_ok hready hvalue
    exact ⟨hchange, hnext⟩
  cases hpart with
  | operand | left | inner | printed | called | firstValue | arguments | assigned | returned
  | printing | calling | looping | condition | choosing | test | otherwise | guarded
  | firstStatement => exact law.refl .write machine
  | right hvalue | otherValues hvalue | round hvalue | chosen hvalue | passedOver hvalue =>
    exact (hevaluate hvalue).1
  | @otherRounds _ body _ _ _ fuel _ _ hcondition _ hbody =>
    obtain ⟨hchange, hmiddle⟩ := hevaluate hcondition
    have hobeys := Law.obeys_runLoopBody (law.obeys_executeBody fuel) body
    exact law.trans hchange (hobeys.ready_of_eq_ok hmiddle hbody).1
  | @handler body _ _ _ _ fuel _ hbody =>
    exact ((law.obeys_executeBody fuel body).ready_of_eq_error hready hbody).1
  | @otherStatements first _ _ _ fuel hfirst =>
    exact ((law.obeys_execute fuel first).ready_of_eq_ok hready hfirst).1

/-- `Within limit whole start task machine`: while `whole` is being done from `start` on, there is a
    moment at which `task` begins on `machine`, be it in the same function body or in one that has
    been called. -/
inductive Within (limit : Nat) (whole : Task) (start : Machine) : Task → Machine → Prop where
  | whole : Within limit whole start whole start
  | part {task part : Task} {machine next : Machine} (hwithin : Within limit whole start task machine)
      (hpart : Part limit task machine part next) : Within limit whole start part next
  | body {machine next : Machine} {fuel : Nat} {name : String} {args : List Expr} {span : Span}
      {closure : Closure} {values : List Value}
      (hwithin : Within limit whole start (.call name args span) machine)
      (hclosure : machine.store.get? machine.scope name = some (.function closure))
      (harity : closure.params.length = args.length)
      (hargs : evaluateAll (evaluate limit fuel) args machine = .ok values next)
      (hdepth : next.depth < limit) :
      Within limit whole start (.run closure.body) (next.entered closure values)

/-- A law that speaks about the machine of the beginning speaks about that of every moment. -/
theorem Within.ready {limit : Nat} {whole task : Task} {start machine : Machine}
    (hwithin : Within limit whole start task machine) (law : Law limit) (hstart : law.ready start) :
    law.ready machine := by
  induction hwithin with
  | whole => exact hstart
  | part _ hpart ih => exact law.ready_of_change ih (hpart.change law ih)
  | @body _ _ fuel _ args _ _ _ _ hclosure _ hargs hdepth ih =>
    have hobeys := Law.obeys_evaluateAll (law.obeys_evaluate fuel) args
    obtain ⟨_, hnext, hvalues⟩ := hobeys.ready_of_eq_ok ih hargs
    exact (law.enter hnext hdepth (law.good_of_get ih hclosure) hvalues).1

/-- How a call ends whose body has ended so, for a caller whose frame is `scope`. -/
def ofBody (scope : FrameId) :
    EStateM.Result Interrupt Machine Outcome → EStateM.Result Interrupt Machine Value
  | .ok outcome next => .ok outcome.value (next.left scope)
  | .error reason next => .error reason (next.left scope)

theorem enter_of_lt {limit : Nat} {run : List Stmt → Eval Outcome} {span : Span} {name : String}
    {closure : Closure} {args : List Value} {machine : Machine} (hdepth : machine.depth < limit) :
    enter limit run span name closure args machine =
      ofBody machine.scope (run closure.body (machine.entered closure args)) := by
  cases hrun : run closure.body (machine.entered closure args) with
  | ok outcome next => exact enter_of_eq_ok hdepth hrun
  | error reason next => exact enter_of_eq_error hdepth hrun

/-- A function that is known, given as many arguments as it takes, is entered with their
    values. -/
theorem call_of_get {limit fuel : Nat} {run : List Stmt → Eval Outcome} {name : String}
    {args : List Expr} {span : Span} {machine next : Machine} {closure : Closure}
    {values : List Value}
    (hclosure : machine.store.get? machine.scope name = some (.function closure))
    (harity : closure.params.length = args.length)
    (hargs : evaluateAll (evaluate limit fuel) args machine = .ok values next) :
    call limit (evaluate limit fuel) run span name args machine =
      enter limit run span name closure values next := by
  have hcallee := (callee_of_get hclosure span args.length).trans (if_pos harity)
  rw [call, bind_of_eq_ok hcallee, bind_of_eq_ok hargs]

/-- Moments, each given by a task that begins and the machine that it begins on, which what
    happens in them does not lead out of. At these moments a limit of `limit'` calls is as good
    as one of `limit`. -/
structure Traced (limit limit' : Nat) (moments : Task → Machine → Prop) : Prop where
  part {task part : Task} {machine next : Machine} : moments task machine →
    Part limit task machine part next → moments part next
  body {machine next : Machine} {fuel : Nat} {name : String} {args : List Expr} {span : Span}
    {closure : Closure} {values : List Value} : moments (.call name args span) machine →
    machine.store.get? machine.scope name = some (.function closure) →
    closure.params.length = args.length →
    evaluateAll (evaluate limit fuel) args machine = .ok values next → next.depth < limit →
    moments (.run closure.body) (next.entered closure values)
  guard {machine next : Machine} {fuel : Nat} {name : String} {args : List Expr} {span : Span}
    {closure : Closure} {values : List Value} : moments (.call name args span) machine →
    machine.store.get? machine.scope name = some (.function closure) →
    closure.params.length = args.length →
    evaluateAll (evaluate limit fuel) args machine = .ok values next →
    limit' = limit ∨ next.depth < limit ∧ next.depth < limit'

/-- Ways to evaluate and execute that do at certain moments what those on `fuel` do. -/
structure AgreeOn (moments : Task → Machine → Prop) (limit fuel : Nat)
    (evaluate' : Expr → Eval Value) (execute' : Stmt → Eval Outcome) : Prop where
  evaluate {expression : Expr} {machine : Machine} : moments (.evaluate expression) machine →
    evaluate limit fuel expression machine = evaluate' expression machine
  execute {statement : Stmt} {machine : Machine} : moments (.execute statement) machine →
    execute limit fuel statement machine = execute' statement machine

namespace Traced

-- What is done at one of these moments never asks for anything to be done but at another, so
-- that it cannot tell two ways apart which agree there.
variable {limit limit' fuel : Nat} {moments : Task → Machine → Prop}
  {evaluate' : Expr → Eval Value} {execute' : Stmt → Eval Outcome} {machine : Machine}
  (htraced : Traced limit limit' moments) (hagree : AgreeOn moments limit fuel evaluate' execute')
include htraced hagree

theorem evaluateAll_eq {expressions : List Expr}
    (hmoment : moments (.evaluateAll expressions) machine) :
    evaluateAll (evaluate limit fuel) expressions machine =
      evaluateAll evaluate' expressions machine := by
  induction expressions generalizing machine with
  | nil => rfl
  | cons first rest ih =>
    refine bind_congr_of_eq (hagree.evaluate (htraced.part hmoment .firstValue)) ?_
    intro value next hfirst
    exact bind_congr_of_eq (ih (htraced.part hmoment (.otherValues hfirst))) fun _ _ _ => rfl

theorem runBody_eq {body : List Stmt} (hmoment : moments (.run body) machine) :
    executeBody limit fuel body machine = runBody execute' body machine := by
  induction body generalizing machine with
  | nil => rfl
  | cons first rest ih =>
    refine bind_congr_of_eq (hagree.execute (htraced.part hmoment .firstStatement)) ?_
    intro outcome next hfirst
    cases outcome with
    | normal => exact ih (htraced.part hmoment (.otherStatements hfirst))
    | returned | broke | continued => rfl

theorem runBranches_eq {branches : List (Expr × List Stmt)} {otherwise : List Stmt}
    (hmoment : moments (.choose branches otherwise) machine) :
    runBranches (evaluate limit fuel) (executeBody limit fuel) otherwise branches machine =
      runBranches evaluate' (runBody execute') otherwise branches machine := by
  induction branches generalizing machine with
  | nil => exact htraced.runBody_eq hagree (htraced.part hmoment .otherwise)
  | cons branch rest ih =>
    obtain ⟨condition, body⟩ := branch
    refine bind_congr_of_eq (hagree.evaluate (htraced.part hmoment .test)) ?_
    intro value next hcondition
    cases hvalue : value.isTruthy with
    | true => exact htraced.runBody_eq hagree (htraced.part hmoment (.chosen hcondition hvalue))
    | false => exact ih (htraced.part hmoment (.passedOver hcondition hvalue))

theorem runLoop_eq {condition : Expr} {body : LoopBody}
    (hmoment : moments (.loop condition body) machine) (bound : Nat) :
    runLoop (evaluate limit fuel condition) (runLoopBody (executeBody limit fuel) body) bound
        machine =
      runLoop (evaluate' condition) (runLoopBody (runBody execute') body) bound machine := by
  induction bound generalizing machine with
  | zero => rfl
  | succ bound ih =>
    refine bind_congr_of_eq (hagree.evaluate (htraced.part hmoment .condition)) ?_
    intro value middle hcondition
    cases hvalue : value.isTruthy with
    | false => rfl
    | true =>
      have hbody : runLoopBody (executeBody limit fuel) body middle =
          runLoopBody (runBody execute') body middle := by
        cases body with
        | breakOnly | continueOnly => rfl
        | block body =>
          exact htraced.runBody_eq hagree (htraced.part hmoment (.round hcondition hvalue))
      refine bind_congr_of_eq hbody ?_
      intro outcome next hround
      have hagain (houtcome : outcome = .normal ∨ outcome = .continued) :
          moments (.loop condition body) next :=
        htraced.part hmoment (.otherRounds hcondition hvalue hround houtcome)
      cases outcome with
      | normal => exact ih (hagain (.inl rfl))
      | continued => exact ih (hagain (.inr rfl))
      | broke | returned => rfl

theorem call_eq {name : String} {args : List Expr} {span : Span}
    (hmoment : moments (.call name args span) machine) :
    call limit (evaluate limit fuel) (executeBody limit fuel) span name args machine =
      call limit' evaluate' (runBody execute') span name args machine := by
  refine bind_congr_of_eq rfl ?_
  intro closure machine' hcallee
  obtain ⟨hclosure, harity, rfl⟩ := callee_eq_ok hcallee
  have harguments := htraced.part hmoment (.arguments hclosure harity)
  refine bind_congr_of_eq (htraced.evaluateAll_eq hagree harguments) ?_
  intro values next hargs
  have hbody (hdepth : next.depth < limit) :
      executeBody limit fuel closure.body (next.entered closure values) =
        runBody execute' closure.body (next.entered closure values) :=
    htraced.runBody_eq hagree (htraced.body hmoment hclosure harity hargs hdepth)
  obtain rfl | ⟨hdepth, hdepth'⟩ := htraced.guard hmoment hclosure harity hargs
  · by_cases hdepth : next.depth < limit'
    · rw [enter_of_lt hdepth, enter_of_lt hdepth, hbody hdepth]
    · have hlimit := Nat.not_lt.mp hdepth
      rw [enter_of_limit_le hlimit, enter_of_limit_le hlimit]
  · rw [enter_of_lt hdepth, enter_of_lt hdepth', hbody hdepth]

/-- The parts of an expression are evaluated at moments only. -/
theorem evaluateWith_eq {expression : Expr} (hmoment : moments (.evaluate expression) machine) :
    Eval.evaluate limit (fuel + 1) expression machine =
      evaluateWith limit' evaluate' (runBody execute') expression machine := by
  rw [evaluate_succ]
  cases expression with
  | literal | name | input => rfl
  | unary op operand span =>
    exact bind_congr_of_eq (hagree.evaluate (htraced.part hmoment .operand)) fun _ _ _ => rfl
  | binary op left right span =>
    refine bind_congr_of_eq (hagree.evaluate (htraced.part hmoment .left)) ?_
    intro value next hleft
    exact bind_congr_of_eq (hagree.evaluate (htraced.part hmoment (.right hleft))) fun _ _ _ => rfl
  | group inner span => exact hagree.evaluate (htraced.part hmoment .inner)
  | print args span =>
    have hargs := htraced.evaluateAll_eq hagree (htraced.part hmoment .printed)
    exact bind_congr_of_eq hargs fun _ _ _ => rfl
  | call name args span => exact htraced.call_eq hagree (htraced.part hmoment .called)

/-- The parts of a statement are evaluated and run at moments only. -/
theorem executeWith_eq {statement : Stmt} (hmoment : moments (.execute statement) machine) :
    Eval.execute limit (fuel + 1) statement machine =
      executeWith limit' fuel evaluate' (runBody execute') statement machine := by
  rw [execute_succ]
  cases statement with
  | pass | breakLoop | continueLoop | input | update => rfl
  | assign target value span =>
    exact bind_congr_of_eq (hagree.evaluate (htraced.part hmoment .assigned)) fun _ _ _ => rfl
  | returnWith value span =>
    cases value with
    | none => rfl
    | some value =>
      exact bind_congr_of_eq (hagree.evaluate (htraced.part hmoment .returned)) fun _ _ _ => rfl
  | loop condition body span => exact htraced.runLoop_eq hagree (htraced.part hmoment .looping) fuel
  | branch condition body elifs otherwise span =>
    exact htraced.runBranches_eq hagree (htraced.part hmoment .choosing)
  | guarded body handler span =>
    have hbody := htraced.runBody_eq hagree (htraced.part hmoment .guarded)
    change rescue (executeBody limit fuel body) (executeBody limit fuel handler) machine =
      rescue (runBody execute' body) (runBody execute' handler) machine
    cases hresult : executeBody limit fuel body machine with
    | ok outcome next => rw [rescue_of_eq_ok hresult, rescue_of_eq_ok (hbody.symm.trans hresult)]
    | error reason next =>
      rw [rescue_of_eq_error hresult, rescue_of_eq_error (hbody.symm.trans hresult)]
      split
      · next hruntime =>
        obtain ⟨error, rfl⟩ := Interrupt.isRuntime_iff.mp hruntime
        exact htraced.runBody_eq hagree (htraced.part hmoment (.handler hresult))
      · rfl
  | print args span =>
    have hargs := htraced.evaluateAll_eq hagree (htraced.part hmoment .printing)
    exact bind_congr_of_eq hargs fun _ _ _ => rfl
  | call name args span =>
    exact bind_congr_of_eq (htraced.call_eq hagree (htraced.part hmoment .calling)) fun _ _ _ => rfl

end Traced
end KawaiiLang.Eval
