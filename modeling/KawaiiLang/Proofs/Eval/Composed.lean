import KawaiiLang.Proofs.Eval.Session
import KawaiiLang.Proofs.Eval.Task

namespace KawaiiLang

/-- The reasons for which running code can stop: a runtime error, or that the fuel does not
    suffice. -/
inductive Interrupt.Raisable : Interrupt → Prop where
  | fault (error : RuntimeError) : Raisable (.fault error)
  | outOfFuel : Raisable .outOfFuel

/-- A machine without its input and output. -/
structure Memory where
  store : Store
  scope : FrameId
  depth : Nat

namespace Machine

def memory (machine : Machine) : Memory :=
  ⟨machine.store, machine.scope, machine.depth⟩

def withMemory (machine : Machine) (memory : Memory) : Machine :=
  { machine with store := memory.store, scope := memory.scope, depth := memory.depth }

end Machine

namespace Eval

variable {α β : Type}

/-- A computation that has nothing to do with the input and the output. -/
def inMemory (act : Memory → Except Interrupt α × Memory) : Eval α := fun machine =>
  match act machine.memory with
  | (.ok value, memory) => .ok value (machine.withMemory memory)
  | (.error reason, memory) => .error reason (machine.withMemory memory)

theorem final_inMemory (act : Memory → Except Interrupt α × Memory) (machine : Machine) :
    final (inMemory act machine) = machine.withMemory (act machine.memory).2 := by
  unfold inMemory
  rcases act machine.memory with ⟨_ | _, memory⟩ <;> rfl

/-- Whatever comes of reading a line, a line that there was is gone. -/
theorem final_readLine (span : Span) (machine : Machine) :
    final (readLine span machine) =
      { machine with input := (machine.input.readLine?.map Prod.snd).getD machine.input } := by
  rw [readLine_apply]
  cases machine.input.readLine? with
  | none => rfl
  | some read =>
    dsimp only
    cases read.1.text? <;> rfl

/-- Goes on from wherever `body` ends: by `done` if that has given a value, and by `failed` if
    it was interrupted. -/
def followed (body : Eval α) (done : α → Eval β) (failed : Interrupt → Eval β) : Eval β :=
  fun machine =>
    match body machine with
    | .ok value machine => done value machine
    | .error reason machine => failed reason machine

theorem followed_of_eq_ok {body : Eval α} {machine next : Machine} {value : α}
    (hbody : body machine = .ok value next) (done : α → Eval β) (failed : Interrupt → Eval β) :
    followed body done failed machine = done value next := by
  rw [followed, hbody]

theorem followed_of_eq_error {body : Eval α} {machine next : Machine} {reason : Interrupt}
    (hbody : body machine = .error reason next) (done : α → Eval β)
    (failed : Interrupt → Eval β) : followed body done failed machine = failed reason next := by
  rw [followed, hbody]

/-- The computation is put together from accesses to the memory, one write, flush or reading of
    a line at a time. It is stopped by runtime errors and for want of fuel only: what is raised is
    one of these from the start, and what was raised is passed on as it is. -/
inductive Composed : {α : Type} → Eval α → Prop where
  | inMemory {α : Type} {act : Memory → Except Interrupt α × Memory}
      (hact : ∀ memory reason, (act memory).1 = .error reason → reason.Raisable) :
      Composed (inMemory act)
  | write (span : Span) (text : String) : Composed (write span text)
  | flush (span : Span) : Composed (flush span)
  | readLine (span : Span) : Composed (readLine span)
  | followed {α β : Type} {body : Eval α} {done : α → Eval β} {failed : Interrupt → Eval β}
      (hbody : Composed body) (hdone : ∀ value, Composed (done value))
      (hfailed : ∀ reason, reason.Raisable → Composed (failed reason)) :
      Composed (followed body done failed)

theorem raisable_of_ended {result : Except RuntimeError α} {machine next : Machine}
    {reason : Interrupt} (herror : ended result machine = .error reason next) :
    reason.Raisable := by
  cases result <;> cases herror
  exact .fault _

/-- Every computation of this kind is stopped in one of the two ways. -/
theorem Composed.raisable {computation : Eval α} (hcomposed : Composed computation)
    {machine next : Machine} {reason : Interrupt}
    (herror : computation machine = .error reason next) : reason.Raisable := by
  induction hcomposed generalizing machine next reason with
  | @inMemory _ act hact =>
    have hgiven := hact machine.memory reason
    unfold Eval.inMemory at herror
    rcases hresult : act machine.memory with ⟨_ | found, memory⟩ <;> rw [hresult] at herror hgiven
    · cases herror
      exact hgiven rfl
    · cases herror
  | write span text =>
    rw [write_apply] at herror
    exact raisable_of_ended herror
  | flush span =>
    rw [flush_apply] at herror
    exact raisable_of_ended herror
  | readLine span =>
    rw [readLine_apply] at herror
    split at herror
    · cases herror
      exact .fault _
    · split at herror <;> cases herror
      exact .fault _
  | @followed _ _ body _ _ _ _ _ ihbody ihdone ihfailed =>
    cases hresult : body machine with
    | ok value middle =>
      rw [followed_of_eq_ok hresult] at herror
      exact ihdone value herror
    | error reason middle =>
      rw [followed_of_eq_error hresult] at herror
      exact ihfailed reason (ihbody hresult) herror

/-- So a failure that it raises is a runtime error. -/
theorem Composed.isRuntime {computation : Eval α} (hcomposed : Composed computation)
    {machine next : Machine} {failure : Failure}
    (herror : computation machine = .error (.failure failure) next) : failure.isRuntime = true := by
  cases hcomposed.raisable herror
  rfl

theorem composed_inMemory_ok (value : Memory → α) (change : Memory → Memory) :
    Composed (inMemory fun memory => (.ok (value memory), change memory)) :=
  .inMemory fun _ _ => nofun

theorem composed_inMemory_error {reason : Interrupt} (hreason : reason.Raisable)
    (change : Memory → Memory) :
    Composed (inMemory fun memory => (.error reason, change memory) : Eval α) := by
  refine .inMemory ?_
  rintro memory _ ⟨⟩
  exact hreason

theorem composed_pure (value : α) : Composed (pure value : Eval α) :=
  composed_inMemory_ok (fun _ => value) id

theorem composed_throw {reason : Interrupt} (hreason : reason.Raisable) :
    Composed (throw reason : Eval α) :=
  composed_inMemory_error hreason id

theorem composed_raise (span : Span) (fault : RuntimeFault) :
    Composed (raise span fault : Eval α) :=
  composed_throw (.fault _)

theorem composed_ofExcept (span : Span) (result : Except RuntimeFault α) :
    Composed (ofExcept span result) := by
  cases result with
  | ok value => exact composed_pure value
  | error fault => exact composed_raise span fault

theorem bind_eq_followed (step : Eval α) (next : α → Eval β) :
    step >>= next = followed step next throw := by
  funext machine
  cases hstep : step machine with
  | ok value middle => rw [bind_of_eq_ok hstep, followed_of_eq_ok hstep]
  | error reason middle =>
    rw [bind_of_eq_error hstep, followed_of_eq_error hstep]
    rfl

theorem Composed.bind {step : Eval α} {next : α → Eval β} (hstep : Composed step)
    (hnext : ∀ value, Composed (next value)) : Composed (step >>= next) := by
  rw [bind_eq_followed]
  exact hstep.followed hnext fun _ => composed_throw

theorem composed_find? (name : String) : Composed (find? name) :=
  composed_inMemory_ok (fun memory => memory.store.get? memory.scope name) id

theorem composed_define (name : String) (value : Value) : Composed (define name value) :=
  composed_inMemory_ok (fun _ => ()) fun memory =>
    { memory with store := memory.store.define memory.scope name value }

theorem composed_assign (name : String) (value : Value) : Composed (assign name value) :=
  composed_inMemory_ok (fun _ => ()) fun memory =>
    { memory with store := (memory.store.assign? memory.scope name value).getD memory.store }

theorem composed_defineFunction (function : FunctionDef) : Composed (defineFunction function) :=
  composed_inMemory_ok (fun _ => ()) fun memory =>
    let closed := memory.store.close function.name function.params function.body Machine.globals
    { memory with store := closed.2.define Machine.globals function.name (.function closed.1) }

/-- Gives up the current frame in favour of the one in which it was entered. -/
def backOut (scope : FrameId) (result : Except Interrupt α) : Eval α :=
  inMemory fun memory => (result, { memory with store := memory.store.pop, scope })

theorem inFrame_eq_followed (frame : Frame) (body : Eval α) :
    inFrame frame body =
      (inMemory fun memory => (.ok memory.scope,
        { memory with store := memory.store.push frame, scope := memory.store.nextFrame })) >>=
      fun scope => followed body (fun value => backOut scope (.ok value))
        fun reason => backOut scope (.error reason) := by
  funext machine
  change inFrame frame body machine = followed body _ _ (machine.inner frame)
  cases hbody : body (machine.inner frame) with
  | ok value next =>
    rw [inFrame_of_eq_ok hbody, followed_of_eq_ok hbody]
    rfl
  | error reason next =>
    rw [inFrame_of_eq_error hbody, followed_of_eq_error hbody]
    rfl

theorem Composed.inFrame {body : Eval α} (hbody : Composed body) (frame : Frame) :
    Composed (inFrame frame body) := by
  rw [inFrame_eq_followed]
  refine (composed_inMemory_ok Memory.scope _).bind ?_
  intro scope
  exact hbody.followed (fun value => composed_inMemory_ok _ _) fun reason hreason =>
    composed_inMemory_error hreason _

def shallower (result : Except Interrupt α) : Eval α :=
  inMemory fun memory => (result, { memory with depth := memory.depth - 1 })

theorem deeper_eq_followed (body : Eval α) :
    deeper body =
      (inMemory fun memory => (.ok (), { memory with depth := memory.depth + 1 })) >>=
      fun _ => followed body (fun value => shallower (.ok value))
        fun reason => shallower (.error reason) := by
  funext machine
  change deeper body machine = followed body _ _ { machine with depth := machine.depth + 1 }
  unfold deeper followed
  cases body { machine with depth := machine.depth + 1 } <;> rfl

theorem Composed.deeper {body : Eval α} (hbody : Composed body) : Composed (deeper body) := by
  rw [deeper_eq_followed]
  refine (composed_inMemory_ok _ _).bind ?_
  intro _
  exact hbody.followed (fun value => composed_inMemory_ok _ _) fun reason hreason =>
    composed_inMemory_error hreason _

theorem rescue_eq_followed (body handler : Eval α) :
    rescue body handler =
      followed body pure fun reason => if reason.isRuntime then handler else throw reason := by
  funext machine
  cases hbody : body machine with
  | ok value next => rw [rescue_of_eq_ok hbody, followed_of_eq_ok hbody, pure_apply]
  | error reason next =>
    rw [rescue_of_eq_error hbody, followed_of_eq_error hbody]
    split <;> rfl

theorem Composed.rescue {body handler : Eval α} (hbody : Composed body)
    (hhandler : Composed handler) : Composed (rescue body handler) := by
  rw [rescue_eq_followed]
  refine hbody.followed composed_pure ?_
  intro reason hreason
  split
  · exact hhandler
  · exact composed_throw hreason

theorem composed_printValues (span : Span) (values : List Value) :
    Composed (printValues span values) :=
  (Composed.write span _).bind fun _ => .write span _

/-- What is done in front of reading a line: the prompt is written, and has to be on its way. -/
def ask (span : Span) (prompt : Option String) : Eval Unit := do
  if let some text := prompt then
    write span text
  flush span

theorem readInput_eq_ask (span : Span) (prompt : Option String) :
    readInput span prompt = ask span prompt >>= fun _ => readLine span := by
  cases prompt with
  | none => rfl
  | some text => simp only [readInput, ask, bind_assoc]

theorem composed_ask (span : Span) (prompt : Option String) : Composed (ask span prompt) := by
  cases prompt with
  | none => exact .flush span
  | some text => exact (Composed.write span text).bind fun _ => .flush span

theorem composed_readInput (span : Span) (prompt : Option String) :
    Composed (readInput span prompt) := by
  rw [readInput_eq_ask]
  exact (composed_ask span prompt).bind fun _ => .readLine span

theorem composed_updateName (span : Span) (name : String) (op : UpdateOp) :
    Composed (updateName span name op) := by
  refine (composed_find? name).bind ?_
  intro found
  cases found with
  | none => exact composed_raise span _
  | some current => exact (composed_ofExcept span _).bind (composed_assign name)

theorem composed_callee (span : Span) (name : String) (given : Nat) :
    Composed (callee span name given) := by
  refine (composed_find? name).bind ?_
  intro found
  cases found with
  | none => exact composed_raise span _
  | some value =>
    cases value with
    | function closure =>
      dsimp only
      split
      · exact composed_pure closure
      · exact composed_raise span _
    | _ => exact composed_raise span _

section

-- How the parts of a program are evaluated and run.
variable {limit : Nat} {evaluate : Expr → Eval Value} {run : List Stmt → Eval Outcome}
  (hevaluate : ∀ expression, Composed (evaluate expression)) (hrun : ∀ body, Composed (run body))

include hevaluate in
theorem composed_evaluateAll (expressions : List Expr) :
    Composed (evaluateAll evaluate expressions) := by
  induction expressions with
  | nil => exact composed_pure []
  | cons first rest ih =>
    refine (hevaluate first).bind ?_
    intro value
    exact ih.bind fun values => composed_pure _

theorem composed_runBody {execute : Stmt → Eval Outcome}
    (hexecute : ∀ statement, Composed (execute statement)) (body : List Stmt) :
    Composed (runBody execute body) := by
  induction body with
  | nil => exact composed_pure _
  | cons first rest ih =>
    refine (hexecute first).bind ?_
    intro outcome
    cases outcome with
    | normal => exact ih
    | returned | broke | continued => exact composed_pure _

include hevaluate hrun in
theorem composed_runBranches (otherwise : List Stmt) (branches : List (Expr × List Stmt)) :
    Composed (runBranches evaluate run otherwise branches) := by
  induction branches with
  | nil => exact hrun otherwise
  | cons branch rest ih =>
    obtain ⟨condition, body⟩ := branch
    refine (hevaluate condition).bind ?_
    intro value
    split
    · exact hrun body
    · exact ih

theorem composed_runLoop {condition : Eval Value} {body : Eval Outcome}
    (hcondition : Composed condition) (hbody : Composed body) (bound : Nat) :
    Composed (runLoop condition body bound) := by
  induction bound with
  | zero => exact composed_throw .outOfFuel
  | succ bound ih =>
    refine hcondition.bind ?_
    intro value
    split
    · refine hbody.bind ?_
      intro outcome
      cases outcome with
      | normal | continued => exact ih
      | broke | returned => exact composed_pure _
    · exact composed_pure _

include hrun in
theorem composed_runLoopBody (body : LoopBody) : Composed (runLoopBody run body) := by
  cases body with
  | breakOnly | continueOnly => exact composed_pure _
  | block body => exact hrun body

theorem enter_eq_bind (span : Span) (name : String) (closure : Closure) (args : List Value) :
    enter limit run span name closure args =
      (inMemory fun memory => (.ok memory.depth, memory)) >>= fun depth =>
        if limit ≤ depth then raise span (.recursionLimit limit name)
        else deeper (inFrame (Machine.callFrame closure args) (run closure.body)) >>=
          fun outcome => pure outcome.value := by
  funext machine
  change (if limit ≤ machine.depth then _ else _ : Eval Value) machine =
    (if limit ≤ machine.depth then _ else _ : Eval Value) machine
  split
  · rfl
  · refine bind_congr_of_eq rfl ?_
    intro outcome next _
    cases outcome <;> rfl

include hrun in
theorem composed_enter (span : Span) (name : String) (closure : Closure) (args : List Value) :
    Composed (enter limit run span name closure args) := by
  rw [enter_eq_bind]
  refine (composed_inMemory_ok Memory.depth id).bind ?_
  intro depth
  split
  · exact composed_raise span _
  · exact ((hrun closure.body).inFrame _).deeper.bind fun outcome => composed_pure _

include hevaluate hrun in
theorem composed_call (span : Span) (name : String) (args : List Expr) :
    Composed (call limit evaluate run span name args) := by
  refine (composed_callee span name args.length).bind ?_
  intro closure
  exact (composed_evaluateAll hevaluate args).bind (composed_enter hrun span name closure)

include hevaluate hrun in
theorem composed_evaluateWith (expression : Expr) :
    Composed (evaluateWith limit evaluate run expression) := by
  cases expression with
  | literal => exact composed_pure _
  | name name span =>
    refine (composed_find? name).bind ?_
    intro found
    cases found with
    | none => exact composed_raise span _
    | some value => exact composed_pure value
  | unary op operand span => exact (hevaluate operand).bind fun _ => composed_ofExcept span _
  | binary op left right span =>
    refine (hevaluate left).bind ?_
    intro first
    exact (hevaluate right).bind fun _ => composed_ofExcept span _
  | group inner => exact hevaluate inner
  | print args span =>
    refine (composed_evaluateAll hevaluate args).bind ?_
    intro values
    exact (composed_printValues span values).bind fun _ => composed_pure _
  | input prompt span => exact composed_readInput span prompt
  | call name args span => exact composed_call hevaluate hrun span name args

include hevaluate hrun in
theorem composed_executeWith (rounds : Nat) (statement : Stmt) :
    Composed (executeWith limit rounds evaluate run statement) := by
  cases statement with
  | pass | breakLoop | continueLoop => exact composed_pure _
  | assign target value span =>
    refine (hevaluate value).bind ?_
    intro given
    exact (composed_define target given).bind fun _ => composed_pure _
  | returnWith value span =>
    cases value with
    | none => exact composed_pure _
    | some value => exact (hevaluate value).bind fun _ => composed_pure _
  | loop condition body span =>
    exact composed_runLoop (hevaluate condition) (composed_runLoopBody hrun body) rounds
  | branch condition body elifs otherwise span => exact composed_runBranches hevaluate hrun _ _
  | guarded body handler span => exact (hrun body).rescue (hrun handler)
  | print args span =>
    refine (composed_evaluateAll hevaluate args).bind ?_
    intro values
    exact (composed_printValues span values).bind fun _ => composed_pure _
  | input prompt span => exact (composed_readInput span prompt).bind fun _ => composed_pure _
  | call name args span =>
    exact (composed_call hevaluate hrun span name args).bind fun _ => composed_pure _
  | update name op span => exact (composed_updateName span name op).bind fun _ => composed_pure _

end

variable (limit fuel : Nat)

theorem composed_run :
    (∀ expression, Composed (evaluate limit fuel expression)) ∧
      ∀ statement, Composed (execute limit fuel statement) := by
  induction fuel with
  | zero =>
    refine ⟨?_, ?_⟩
    · intro expression
      rw [evaluate_zero]
      exact composed_throw .outOfFuel
    · intro statement
      rw [execute_zero]
      exact composed_throw .outOfFuel
  | succ fuel ih =>
    obtain ⟨hevaluate, hexecute⟩ := ih
    have hrun := composed_runBody hexecute
    refine ⟨?_, ?_⟩
    · intro expression
      rw [evaluate_succ]
      exact composed_evaluateWith hevaluate hrun expression
    · intro statement
      rw [execute_succ]
      exact composed_executeWith hevaluate hrun fuel statement

theorem composed_executeBody (body : List Stmt) : Composed (executeBody limit fuel body) :=
  composed_runBody (composed_run limit fuel).2 body

theorem composed_compute (rounds : Nat) (task : Task) :
    Composed (task.compute limit fuel rounds) := by
  obtain ⟨hevaluate, hexecute⟩ := composed_run limit fuel
  have hrun := composed_runBody hexecute
  cases task with
  | evaluate expression => exact hevaluate expression
  | evaluateAll expressions => exact composed_evaluateAll hevaluate expressions
  | call name args span => exact composed_call hevaluate hrun span name args
  | execute statement => exact hexecute statement
  | run body => exact hrun body
  | choose branches otherwise => exact composed_runBranches hevaluate hrun otherwise branches
  | loop condition body =>
    exact composed_runLoop (hevaluate condition) (composed_runLoopBody hrun body) rounds

theorem concluded_eq_followed (body : Eval α) :
    concluded body = followed body (fun _ => flush (.single 0)) fun reason =>
      followed (flush (.single 0)) (fun _ => throw reason) fun _ => throw reason := by
  funext machine
  cases hbody : body machine with
  | ok value next => rw [concluded_of_eq_ok hbody, followed_of_eq_ok hbody]
  | error reason next =>
    rw [concluded_of_eq_error hbody, followed_of_eq_error hbody]
    cases hflush : flush (.single 0) next with
    | ok value last =>
      rw [followed_of_eq_ok hflush]
      rfl
    | error refusal last =>
      rw [followed_of_eq_error hflush]
      rfl

theorem composed_forM_defineFunction (functions : List FunctionDef) :
    Composed (functions.forM defineFunction) := by
  induction functions with
  | nil => exact composed_pure _
  | cons function functions ih => exact (composed_defineFunction function).bind fun _ => ih

theorem composed_runProgram (program : Program) : Composed (runProgram limit fuel program) := by
  refine (composed_forM_defineFunction program.functions).bind ?_
  intro _
  cases program.main with
  | none => exact composed_pure _
  | some main =>
    dsimp only
    rw [concluded_eq_followed]
    refine ((composed_executeBody limit fuel main.body).inFrame _).followed
      (fun _ => .flush _) fun reason hreason => ?_
    exact (Composed.flush _).followed (fun _ => composed_throw hreason) fun _ _ =>
      composed_throw hreason

theorem composed_perform (line : Line) : Composed (perform limit fuel line) := by
  cases line with
  | empty => exact composed_pure _
  | definition function => exact (composed_defineFunction function).bind fun _ => composed_pure _
  | expression expression =>
    exact ((composed_run limit fuel).1 expression).bind fun _ => composed_pure _
  | statements body => exact (composed_executeBody limit fuel body).bind fun _ => composed_pure _

theorem runLine_eq_followed (line : Line) :
    runLine limit fuel line =
      followed (perform limit fuel line)
        (fun effect => flush (.single 0) >>= fun _ => pure effect.shown) (giveUp line) := by
  funext machine
  cases hperform : perform limit fuel line machine with
  | ok effect next => rw [runLine_of_perform hperform, followed_of_eq_ok hperform]
  | error reason next => rw [runLine_of_perform_error hperform, followed_of_eq_error hperform]

theorem composed_giveUp (line : Line) {reason : Interrupt} (hreason : reason.Raisable) :
    Composed (giveUp line reason) := by
  obtain hnothing | hflush := giveUp_cases line reason
  · rw [hnothing]
    exact composed_throw hreason
  · rw [hflush]
    exact (Composed.flush _).bind fun _ => composed_throw hreason

theorem composed_runLine (line : Line) : Composed (runLine limit fuel line) := by
  rw [runLine_eq_followed]
  refine (composed_perform limit fuel line).followed ?_ fun _ => composed_giveUp line
  intro effect
  exact (Composed.flush _).bind fun _ => composed_pure _

end Eval
end KawaiiLang
