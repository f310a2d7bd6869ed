import KawaiiLang.Proofs.Eval.Operator
import KawaiiLang.Proofs.Eval.Session
import KawaiiLang.Proofs.Layout.Store
import KawaiiLang.Proofs.Lockstep

namespace KawaiiLang

/-- The same way to leave a statement. -/
inductive Outcome.Relocated : Outcome → Outcome → Prop where
  | normal : Relocated .normal .normal
  | returned {value value' : Value} (hvalue : value.Relocated value') :
      Relocated (.returned value) (.returned value')
  | broke : Relocated .broke .broke
  | continued : Relocated .continued .continued

/-- The same reason to stop, perhaps in another place. -/
inductive Interrupt.Relocated : Interrupt → Interrupt → Prop where
  | fault (fault : RuntimeFault) (span span' : Span) :
      Relocated (.fault ⟨fault, span⟩) (.fault ⟨fault, span'⟩)
  | outOfFuel : Relocated .outOfFuel .outOfFuel

/-- The same machine, up to the places that bodies of functions were read from. -/
structure Machine.Relocated (first second : Machine) : Prop where
  store : first.store.Relocated second.store
  scope : first.scope = second.scope
  depth : first.depth = second.depth
  input : first.input = second.input
  output : first.output = second.output

namespace Machine.Relocated

variable {first second : Machine}

theorem start (input : Input) (output : Sink) :
    (Machine.start input output).Relocated (.start input output) where
  store := by
    have hempty : ({} : Store).Relocated {} := ⟨rfl, fun _ => .none, rfl⟩
    exact (hempty.push ⟨fun _ => .none, rfl⟩).push ⟨fun _ => .none, rfl⟩
  scope := rfl
  depth := rfl
  input := rfl
  output := rfl

theorem withStore (hmachine : first.Relocated second) {store store' : Store}
    (hstore : store.Relocated store') :
    { first with store }.Relocated { second with store := store' } :=
  ⟨hstore, hmachine.scope, hmachine.depth, hmachine.input, hmachine.output⟩

theorem inner (hmachine : first.Relocated second) {frame frame' : Frame}
    (hframe : frame.Relocated frame') : (first.inner frame).Relocated (second.inner frame') :=
  ⟨hmachine.store.push hframe, hmachine.store.size, hmachine.depth, hmachine.input,
    hmachine.output⟩

theorem outer (hmachine : first.Relocated second) (scope : FrameId) :
    (first.outer scope).Relocated (second.outer scope) :=
  ⟨hmachine.store.pop, rfl, hmachine.depth, hmachine.input, hmachine.output⟩

theorem define (hmachine : first.Relocated second) (name : String) {value value' : Value}
    (hvalue : value.Relocated value') :
    { first with store := first.store.define first.scope name value }.Relocated
      { second with store := second.store.define second.scope name value' } := by
  refine hmachine.withStore ?_
  rw [hmachine.scope]
  exact hmachine.store.define second.scope name hvalue

theorem assign (hmachine : first.Relocated second) (name : String) {value value' : Value}
    (hvalue : value.Relocated value') :
    { first with
      store := (first.store.assign? first.scope name value).getD first.store }.Relocated
      { second with
        store := (second.store.assign? second.scope name value').getD second.store } := by
  refine hmachine.withStore ?_
  rw [hmachine.scope]
  exact hmachine.store.assign second.scope name hvalue

theorem defined (hmachine : first.Relocated second) {function function' : FunctionDef}
    (hfunction : function.Relocated function') :
    (first.defined function).Relocated (second.defined function') := by
  obtain ⟨name, params, body, span⟩ := function
  obtain ⟨name', params', body', span'⟩ := function'
  obtain ⟨rfl, rfl, hbody⟩ := hfunction
  have hclosed : Store.Relocated
      { first.store with nextStamp := first.store.nextStamp + 1 }
      { second.store with nextStamp := second.store.nextStamp + 1 } :=
    ⟨hmachine.store.size, hmachine.store.frame, congrArg (· + 1) hmachine.store.nextStamp⟩
  exact hmachine.withStore (hclosed.define globals name
    (.function ⟨hmachine.store.nextStamp, rfl, rfl, hbody, rfl⟩))

theorem definedAll {functions functions' : List FunctionDef}
    (hfunctions : List.Forall₂ FunctionDef.Relocated functions functions')
    (hmachine : first.Relocated second) :
    (first.definedAll functions).Relocated (second.definedAll functions') := by
  induction hfunctions generalizing first second with
  | nil => exact hmachine
  | cons hfunction _ ih => exact ih (hmachine.defined hfunction)

end Machine.Relocated

namespace Eval

/-- Two runs of the same program. -/
def layout : Likeness Interrupt Machine where
  errors := Interrupt.Relocated
  states := Machine.Relocated

open Likeness (lockstep_pure lockstep_throw lockstep_get)

variable {α β : Type} {values : α → β → Prop}

theorem lockstep_raise (span span' : Span) (fault : RuntimeFault) :
    layout.Lockstep values (raise span fault) (raise span' fault) :=
  lockstep_throw (.fault fault span span')

theorem lockstep_ofExcept (span span' : Span) {outcome : Except RuntimeFault Value}
    (htype : ∀ value, outcome = .ok value → value.type ≠ .function) :
    layout.Lockstep Value.Relocated (ofExcept span outcome) (ofExcept span' outcome) := by
  cases outcome with
  | ok value => exact lockstep_pure (.plain (htype value rfl))
  | error fault => exact lockstep_raise span span' fault

theorem lockstep_find? (name : String) :
    layout.Lockstep (Option.Rel Value.Relocated) (find? name) (find? name) := by
  refine lockstep_get.bind ?_
  intro machine machine' hmachine
  refine lockstep_pure ?_
  rw [hmachine.scope]
  exact hmachine.store.get machine'.scope name

theorem lockstep_define (name : String) {value value' : Value} (hvalue : value.Relocated value') :
    layout.Lockstep (fun _ _ => True) (define name value) (define name value') :=
  fun _ _ hmachine => .ok trivial (hmachine.define name hvalue)

theorem lockstep_assign (name : String) {value value' : Value} (hvalue : value.Relocated value') :
    layout.Lockstep (fun _ _ => True) (assign name value) (assign name value') :=
  fun _ _ hmachine => .ok trivial (hmachine.assign name hvalue)

/-- Writing and flushing ask the output, and only say where they failed. -/
theorem lockstep_output (operate : Sink → Except StreamFault Unit × Sink) (span span' : Span)
    {step step' : Eval Unit}
    (hstep : ∀ machine, step machine = match operate machine.output with
      | (.ok _, output) => .ok () { machine with output }
      | (.error fault, output) => .error (.fault ⟨.stream fault, span⟩) { machine with output })
    (hstep' : ∀ machine, step' machine = match operate machine.output with
      | (.ok _, output) => .ok () { machine with output }
      | (.error fault, output) => .error (.fault ⟨.stream fault, span'⟩) { machine with output }) :
    layout.Lockstep (fun _ _ => True) step step' := by
  intro machine machine' hmachine
  have hnext (output : Sink) : { machine with output }.Relocated { machine' with output } :=
    ⟨hmachine.store, hmachine.scope, hmachine.depth, hmachine.input, rfl⟩
  rw [hstep, hstep', hmachine.output]
  obtain ⟨result, output⟩ := operate machine'.output
  cases result with
  | ok => exact .ok trivial (hnext output)
  | error fault => exact .error (.fault _ _ _) (hnext output)

theorem lockstep_write (span span' : Span) (text : String) :
    layout.Lockstep (fun _ _ => True) (write span text) (write span' text) :=
  lockstep_output (·.write text) span span' (fun _ => rfl) fun _ => rfl

theorem lockstep_flush (span span' : Span) :
    layout.Lockstep (fun _ _ => True) (flush span) (flush span') :=
  lockstep_output Sink.flush span span' (fun _ => rfl) fun _ => rfl

theorem lockstep_readLine (span span' : Span) :
    layout.Lockstep Value.Relocated (readLine span) (readLine span') := by
  intro machine machine' hmachine
  rw [readLine_apply, readLine_apply, hmachine.input]
  cases machine'.input.readLine? with
  | none => exact .error (.fault _ _ _) hmachine
  | some read =>
    obtain ⟨line, input⟩ := read
    have hnext : { machine with input }.Relocated { machine' with input } :=
      ⟨hmachine.store, hmachine.scope, hmachine.depth, rfl, hmachine.output⟩
    dsimp only
    cases line.text? with
    | none => exact .error (.fault _ _ _) hnext
    | some text => exact .ok (.plain nofun) hnext

theorem lockstep_readInput (span span' : Span) (prompt : Option String) :
    layout.Lockstep Value.Relocated (readInput span prompt) (readInput span' prompt) := by
  have hread : layout.Lockstep Value.Relocated (flush span >>= fun _ => readLine span)
      (flush span' >>= fun _ => readLine span') :=
    (lockstep_flush span span').bind fun _ _ _ => lockstep_readLine span span'
  cases prompt with
  | none => exact hread
  | some text => exact (lockstep_write span span' text).bind fun _ _ _ => hread

theorem lockstep_printValues (span span' : Span) {values values' : List Value}
    (hvalues : List.Forall₂ Value.Relocated values values') :
    layout.Lockstep (fun _ _ => True) (printValues span values) (printValues span' values') := by
  have hdisplay : values.map Value.display = values'.map Value.display := by
    induction hvalues with
    | nil => rfl
    | cons hvalue _ ih => rw [List.map_cons, List.map_cons, hvalue.display_eq, ih]
  unfold printValues
  rw [hdisplay]
  exact (lockstep_write span span' _).bind fun _ _ _ => lockstep_write span span' _

theorem lockstep_updateName (span span' : Span) (name : String) (op : UpdateOp) :
    layout.Lockstep (fun _ _ => True) (updateName span name op) (updateName span' name op) := by
  refine (lockstep_find? name).bind ?_
  intro found found' hfound
  cases hfound with
  | none => exact lockstep_raise span span' _
  | some hcurrent =>
    dsimp only
    rw [op.apply_eq_of_relocated name hcurrent]
    refine (lockstep_ofExcept span span' fun _ happly => (UpdateOp.apply_type happly).2).bind ?_
    intro value value' hvalue
    exact lockstep_assign name hvalue

theorem lockstep_callee (span span' : Span) (name : String) (given : Nat) :
    layout.Lockstep Closure.Relocated (callee span name given) (callee span' name given) := by
  refine (lockstep_find? name).bind ?_
  intro found found' hfound
  cases hfound with
  | none => exact lockstep_raise span span' _
  | @some value value' hvalue =>
    cases hvalue with
    | plain htype =>
      cases value with
      | function => exact absurd rfl htype
      | unit | bool | int | float | str => exact lockstep_raise span span' _
    | function hclosure =>
      dsimp only
      rw [hclosure.params]
      split
      · exact lockstep_pure hclosure
      · exact lockstep_raise span span' _

theorem lockstep_inFrame {frame frame' : Frame} (hframe : frame.Relocated frame') {body : Eval α}
    {body' : Eval β} (hbody : layout.Lockstep values body body') :
    layout.Lockstep values (inFrame frame body) (inFrame frame' body') := by
  intro machine machine' hmachine
  have hresults := hbody _ _ (hmachine.inner hframe)
  generalize hleft : body (machine.inner frame) = result at hresults
  generalize hright : body' (machine'.inner frame') = result' at hresults
  cases hresults with
  | ok hvalue hnext =>
    rw [inFrame_of_eq_ok hleft, inFrame_of_eq_ok hright, hmachine.scope]
    exact .ok hvalue (hnext.outer machine'.scope)
  | error herror hnext =>
    rw [inFrame_of_eq_error hleft, inFrame_of_eq_error hright, hmachine.scope]
    exact .error herror (hnext.outer machine'.scope)

theorem lockstep_deeper {body : Eval α} {body' : Eval β}
    (hbody : layout.Lockstep values body body') :
    layout.Lockstep values (deeper body) (deeper body') := by
  intro machine machine' hmachine
  have hinside : { machine with depth := machine.depth + 1 }.Relocated
      { machine' with depth := machine'.depth + 1 } :=
    ⟨hmachine.store, hmachine.scope, congrArg (· + 1) hmachine.depth, hmachine.input,
      hmachine.output⟩
  have hback {next next' : Machine} (hnext : next.Relocated next') :
      { next with depth := next.depth - 1 }.Relocated { next' with depth := next'.depth - 1 } :=
    ⟨hnext.store, hnext.scope, congrArg (· - 1) hnext.depth, hnext.input, hnext.output⟩
  have hresults := hbody _ _ hinside
  unfold deeper
  generalize body { machine with depth := machine.depth + 1 } = result at hresults
  generalize body' { machine' with depth := machine'.depth + 1 } = result' at hresults
  cases hresults with
  | ok hvalue hnext => exact .ok hvalue (hback hnext)
  | error herror hnext => exact .error herror (hback hnext)

theorem lockstep_rescue {body body' handler handler' : Eval α} {values : α → α → Prop}
    (hbody : layout.Lockstep values body body')
    (hhandler : layout.Lockstep values handler handler') :
    layout.Lockstep values (rescue body handler) (rescue body' handler') := by
  intro machine machine' hmachine
  have hresults := hbody _ _ hmachine
  unfold rescue
  generalize body machine = result at hresults
  generalize body' machine' = result' at hresults
  cases hresults with
  | ok hvalue hnext => exact .ok hvalue hnext
  | error herror hnext =>
    cases herror with
    | fault => exact hhandler _ _ hnext
    | outOfFuel => exact .error .outOfFuel hnext

section

-- How the parts of an expression or a statement are evaluated and run on either side.
variable {evaluate evaluate' : Expr → Eval Value} {run run' : List Stmt → Eval Outcome}
  (hevaluate : ∀ {expression expression'}, expression.Relocated expression' →
    layout.Lockstep Value.Relocated (evaluate expression) (evaluate' expression'))
  (hrun : ∀ {body body'}, List.Forall₂ Stmt.Relocated body body' →
    layout.Lockstep Outcome.Relocated (run body) (run' body'))

include hevaluate in
theorem lockstep_evaluateAll {expressions expressions' : List Expr}
    (hexpressions : List.Forall₂ Expr.Relocated expressions expressions') :
    layout.Lockstep (List.Forall₂ Value.Relocated) (evaluateAll evaluate expressions)
      (evaluateAll evaluate' expressions') := by
  induction hexpressions with
  | nil => exact lockstep_pure .nil
  | cons hfirst _ ih =>
    refine (hevaluate hfirst).bind ?_
    intro value value' hvalue
    refine ih.bind ?_
    intro values values' hvalues
    exact lockstep_pure (.cons hvalue hvalues)

theorem lockstep_runBody {execute execute' : Stmt → Eval Outcome}
    (hexecute : ∀ {statement statement'}, statement.Relocated statement' →
      layout.Lockstep Outcome.Relocated (execute statement) (execute' statement'))
    {body body' : List Stmt} (hbody : List.Forall₂ Stmt.Relocated body body') :
    layout.Lockstep Outcome.Relocated (runBody execute body) (runBody execute' body') := by
  induction hbody with
  | nil => exact lockstep_pure .normal
  | cons hfirst _ ih =>
    refine (hexecute hfirst).bind ?_
    intro outcome outcome' houtcome
    cases houtcome with
    | normal => exact ih
    | returned hvalue => exact lockstep_pure (.returned hvalue)
    | broke => exact lockstep_pure .broke
    | continued => exact lockstep_pure .continued

include hevaluate hrun in
theorem lockstep_runBranches {otherwise otherwise' : List Stmt}
    (hotherwise : List.Forall₂ Stmt.Relocated otherwise otherwise')
    {branches branches' : List (Expr × List Stmt)}
    (hbranches : List.Forall₂ Branch.Relocated branches branches') :
    layout.Lockstep Outcome.Relocated (runBranches evaluate run otherwise branches)
      (runBranches evaluate' run' otherwise' branches') := by
  induction hbranches with
  | nil => exact hrun hotherwise
  | cons hbranch _ ih =>
    obtain ⟨hcondition, hbody⟩ := hbranch
    refine (hevaluate hcondition).bind ?_
    intro value value' hvalue
    rw [hvalue.isTruthy_eq]
    split
    · exact hrun hbody
    · exact ih

theorem lockstep_runLoop {condition condition' : Eval Value} {body body' : Eval Outcome}
    (hcondition : layout.Lockstep Value.Relocated condition condition')
    (hbody : layout.Lockstep Outcome.Relocated body body') (bound : Nat) :
    layout.Lockstep Outcome.Relocated (runLoop condition body bound)
      (runLoop condition' body' bound) := by
  induction bound with
  | zero => exact lockstep_throw .outOfFuel
  | succ bound ih =>
    refine hcondition.bind ?_
    intro value value' hvalue
    rw [hvalue.isTruthy_eq]
    split
    · refine hbody.bind ?_
      intro outcome outcome' houtcome
      cases houtcome with
      | normal | continued => exact ih
      | broke => exact lockstep_pure .normal
      | returned hvalue => exact lockstep_pure (.returned hvalue)
    · exact lockstep_pure .normal

include hrun in
theorem lockstep_runLoopBody {body body' : LoopBody} (hbody : body.Relocated body') :
    layout.Lockstep Outcome.Relocated (runLoopBody run body) (runLoopBody run' body') := by
  cases hbody with
  | breakOnly => exact lockstep_pure .broke
  | continueOnly => exact lockstep_pure .continued
  | block hbody => exact hrun hbody

include hrun in
theorem lockstep_enter (limit : Nat) (span span' : Span) (name : String)
    {closure closure' : Closure} (hclosure : closure.Relocated closure') {args args' : List Value}
    (hargs : List.Forall₂ Value.Relocated args args') :
    layout.Lockstep Value.Relocated (enter limit run span name closure args)
      (enter limit run' span' name closure' args') := by
  have hframe : Frame.Relocated
      ⟨Bindings.empty.insertAll (closure.params.zip args), some closure.home⟩
      ⟨Bindings.empty.insertAll (closure'.params.zip args'), some closure'.home⟩ := by
    rw [hclosure.params, hclosure.home]
    exact ⟨Bindings.find?_insertAll_rel hargs _ fun _ => .none, rfl⟩
  refine lockstep_get.bind ?_
  intro machine machine' hmachine
  rw [hmachine.depth]
  split
  · exact lockstep_raise span span' _
  · refine (lockstep_deeper (lockstep_inFrame hframe (hrun hclosure.body))).bind ?_
    intro outcome outcome' houtcome
    cases houtcome with
    | returned hvalue => exact lockstep_pure hvalue
    | normal | broke | continued => exact lockstep_pure (.plain nofun)

include hevaluate hrun in
theorem lockstep_call (limit : Nat) (span span' : Span) (name : String) {args args' : List Expr}
    (hargs : List.Forall₂ Expr.Relocated args args') :
    layout.Lockstep Value.Relocated (call limit evaluate run span name args)
      (call limit evaluate' run' span' name args') := by
  unfold call
  rw [hargs.length_eq]
  refine (lockstep_callee span span' name args'.length).bind ?_
  intro closure closure' hclosure
  refine (lockstep_evaluateAll hevaluate hargs).bind ?_
  intro values values' hvalues
  exact lockstep_enter hrun limit span span' name hclosure hvalues

include hevaluate hrun in
theorem lockstep_evaluateWith (limit : Nat) {expression expression' : Expr}
    (hexpression : expression.Relocated expression') :
    layout.Lockstep Value.Relocated (evaluateWith limit evaluate run expression)
      (evaluateWith limit evaluate' run' expression') := by
  cases hexpression with
  | literal value =>
    refine lockstep_pure (.plain ?_)
    cases value <;> nofun
  | name name span span' =>
    refine (lockstep_find? name).bind ?_
    intro found found' hfound
    cases hfound with
    | none => exact lockstep_raise span span' _
    | some hvalue => exact lockstep_pure hvalue
  | unary op span span' hoperand =>
    refine (hevaluate hoperand).bind ?_
    intro value value' hvalue
    rw [op.apply_eq_of_relocated hvalue]
    exact lockstep_ofExcept span span' fun _ happly => UnaryOp.apply_type happly
  | binary op span span' hleft hright =>
    refine (hevaluate hleft).bind ?_
    intro first first' hfirst
    refine (hevaluate hright).bind ?_
    intro second second' hsecond
    rw [op.apply_eq_of_relocated hfirst hsecond]
    exact lockstep_ofExcept span span' fun _ happly => BinaryOp.apply_type happly
  | group _ _ hinner => exact hevaluate hinner
  | print span span' hargs =>
    refine (lockstep_evaluateAll hevaluate hargs).bind ?_
    intro values values' hvalues
    refine (lockstep_printValues span span' hvalues).bind ?_
    intro _ _ _
    exact lockstep_pure (.plain nofun)
  | input prompt span span' => exact lockstep_readInput span span' prompt
  | call name span span' hargs => exact lockstep_call hevaluate hrun limit span span' name hargs

include hevaluate hrun in
theorem lockstep_executeWith (limit rounds : Nat) {statement statement' : Stmt}
    (hstatement : statement.Relocated statement') :
    layout.Lockstep Outcome.Relocated (executeWith limit rounds evaluate run statement)
      (executeWith limit rounds evaluate' run' statement') := by
  cases hstatement with
  | pass => exact lockstep_pure .normal
  | breakLoop => exact lockstep_pure .broke
  | continueLoop => exact lockstep_pure .continued
  | assign target _ _ hvalue =>
    refine (hevaluate hvalue).bind ?_
    intro value value' hvalue
    refine (lockstep_define target hvalue).bind ?_
    intro _ _ _
    exact lockstep_pure .normal
  | returnWith _ _ hvalue =>
    cases hvalue with
    | none => exact lockstep_pure (.returned (.plain nofun))
    | some hvalue =>
      refine (hevaluate hvalue).bind ?_
      intro value value' hvalue
      exact lockstep_pure (.returned hvalue)
  | loop _ _ hcondition hbody =>
    exact lockstep_runLoop (hevaluate hcondition) (lockstep_runLoopBody hrun hbody) rounds
  | branch _ _ hcondition hbody helifs hotherwise =>
    have hbranches := List.Forall₂.cons (Branch.Relocated.mk hcondition hbody) helifs
    cases hotherwise with
    | none => exact lockstep_runBranches hevaluate hrun .nil hbranches
    | some hotherwise => exact lockstep_runBranches hevaluate hrun hotherwise hbranches
  | guarded _ _ hbody hhandler => exact lockstep_rescue (hrun hbody) (hrun hhandler)
  | print span span' hargs =>
    refine (lockstep_evaluateAll hevaluate hargs).bind ?_
    intro values values' hvalues
    refine (lockstep_printValues span span' hvalues).bind ?_
    intro _ _ _
    exact lockstep_pure .normal
  | input prompt span span' =>
    refine (lockstep_readInput span span' prompt).bind ?_
    intro _ _ _
    exact lockstep_pure .normal
  | call name span span' hargs =>
    refine (lockstep_call hevaluate hrun limit span span' name hargs).bind ?_
    intro _ _ _
    exact lockstep_pure .normal
  | update name op span span' =>
    refine (lockstep_updateName span span' name op).bind ?_
    intro _ _ _
    exact lockstep_pure .normal

end

/-- The same program on the same fuel, by induction on the fuel: it decides how far a run
    gets, and the places that the program was read from have no part in it. -/
theorem lockstep_run (limit fuel : Nat) :
    (∀ {expression expression'}, expression.Relocated expression' →
        layout.Lockstep Value.Relocated (evaluate limit fuel expression)
          (evaluate limit fuel expression')) ∧
      ∀ {statement statement'}, statement.Relocated statement' →
        layout.Lockstep Outcome.Relocated (execute limit fuel statement)
          (execute limit fuel statement') := by
  induction fuel with
  | zero =>
    constructor
    · intro expression expression' _
      rw [evaluate_zero, evaluate_zero]
      exact lockstep_throw .outOfFuel
    · intro statement statement' _
      rw [execute_zero, execute_zero]
      exact lockstep_throw .outOfFuel
  | succ fuel ih =>
    obtain ⟨hevaluate, hexecute⟩ := ih
    constructor
    · intro expression expression' hexpression
      rw [evaluate_succ, evaluate_succ]
      exact lockstep_evaluateWith hevaluate (lockstep_runBody hexecute) limit hexpression
    · intro statement statement' hstatement
      rw [execute_succ, execute_succ]
      exact lockstep_executeWith hevaluate (lockstep_runBody hexecute) limit fuel hstatement

theorem lockstep_concluded {body : Eval α} {body' : Eval β}
    (hbody : layout.Lockstep values body body') :
    layout.Lockstep (fun _ _ => True) (concluded body) (concluded body') := by
  intro machine machine' hmachine
  have hresults := hbody _ _ hmachine
  unfold concluded
  generalize body machine = result at hresults
  generalize body' machine' = result' at hresults
  cases hresults with
  | ok _ hnext => exact lockstep_flush _ _ _ _ hnext
  | @error reason reason' next next' herror hnext =>
    have hflushed := lockstep_flush (.single 0) (.single 0) _ _ hnext
    dsimp only
    generalize flush (.single 0) next = flushed at hflushed
    generalize flush (.single 0) next' = flushed' at hflushed
    cases hflushed with
    | ok _ hlast => exact .error herror hlast
    | error _ hlast => exact .error herror hlast

theorem lockstep_defineFunctions {functions functions' : List FunctionDef}
    (hfunctions : List.Forall₂ FunctionDef.Relocated functions functions') :
    layout.Lockstep (fun _ _ => True) (functions.forM defineFunction)
      (functions'.forM defineFunction) := by
  intro machine machine' hmachine
  rw [forM_defineFunction, forM_defineFunction]
  exact .ok trivial (Machine.Relocated.definedAll hfunctions hmachine)

theorem lockstep_runProgram (limit fuel : Nat) {program program' : Program}
    (hprogram : program.Relocated program') :
    layout.Lockstep (fun _ _ => True) (runProgram limit fuel program)
      (runProgram limit fuel program') := by
  obtain ⟨functions, main⟩ := program
  obtain ⟨functions', main'⟩ := program'
  obtain ⟨hfunctions, hmain⟩ := hprogram
  refine (lockstep_defineFunctions hfunctions).bind ?_
  intro _ _ _
  cases hmain with
  | none => exact lockstep_pure trivial
  | some hmain =>
    have hframe : Machine.mainFrame.Relocated Machine.mainFrame := ⟨fun _ => .none, rfl⟩
    exact lockstep_concluded
      (lockstep_inFrame hframe (lockstep_runBody (lockstep_run limit fuel).2 hmain.body))

end Eval
end KawaiiLang
