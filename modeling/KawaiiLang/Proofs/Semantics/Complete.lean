import KawaiiLang.Proofs.Semantics.Sound

namespace KawaiiLang

/-- The ending of a statement with an error as one of the ways to end. -/
def Completion.ofExcept : Except RuntimeError Outcome → Completion
  | .ok .normal => normal
  | .ok (.returned value) => returned value
  | .ok .broke => broke
  | .ok .continued => continued
  | .error error => raised error

@[simp] theorem Completion.ofExcept_toExcept (completion : Completion) :
    ofExcept completion.toExcept = completion := by
  cases completion <;> rfl

theorem Completion.ofExcept_ok_ne_raised (outcome : Outcome) (error : RuntimeError) :
    ofExcept (.ok outcome) ≠ .raised error := by
  intro hsame
  cases outcome <;> cases hsame

/-- The ending of a task as the rules have it. -/
def Task.ofExcept : (task : Task) → Except RuntimeError task.Result → task.Ending
  | evaluate _ | call .. | evaluateAll _ => id
  | execute _ | run _ | choose .. | loop .. => Completion.ofExcept

@[simp] theorem Task.ofExcept_toExcept (task : Task) (ending : task.Ending) :
    task.ofExcept (task.toExcept ending) = ending := by
  cases task with
  | evaluate | call | evaluateAll => rfl
  | execute | run | choose | loop => exact Completion.ofExcept_toExcept ending

/-- Each of the expressions in a list has a value. -/
theorem Task.Ends.length_eq {limit : Nat} {expressions : List Expr} {machine next : Machine}
    {values : List Value}
    (hends : (evaluateAll expressions).Ends limit machine (.ok values) next) :
    expressions.length = values.length := by
  induction expressions generalizing machine values with
  | nil =>
    cases hends
    rfl
  | cons first rest ih =>
    cases hends with
    | values _ hrest => exact congrArg (· + 1) (ih hrest)

namespace Eval

variable {α : Type} {limit : Nat} {machine next : Machine}

theorem pure_eq_ended_iff {value : α} {ending : Except RuntimeError α} :
    (pure value : Eval α) machine = ended ending next ↔ ending = .ok value ∧ next = machine := by
  cases ending with
  | ok other =>
    rw [pure_apply, ended, EStateM.Result.ok.injEq, Except.ok.injEq, eq_comm]
    exact and_congr_right fun _ => eq_comm
  | error error => exact ⟨nofun, nofun⟩

theorem ofExcept_eq_ended_iff {span : Span} {given : Except RuntimeFault α}
    {ending : Except RuntimeError α} :
    ofExcept span given machine = ended ending next ↔
      ending = given.mapError (⟨·, span⟩) ∧ next = machine := by
  cases given with
  | ok value => exact pure_eq_ended_iff
  | error fault =>
    cases ending with
    | ok value => exact ⟨nofun, nofun⟩
    | error error =>
      constructor
      · intro herror
        cases herror
        exact ⟨rfl, rfl⟩
      · rintro ⟨hsame, rfl⟩
        cases hsame
        rfl

/-- A call within the limit comes to the end that its body comes to. -/
theorem enter_eq_ended {run : List Stmt → Eval Outcome} {span : Span} {name : String}
    {closure : Closure} {values : List Value} {ending : Except RuntimeError Value}
    (hdepth : machine.depth < limit)
    (henter : enter limit run span name closure values machine = ended ending next) :
    ∃ result later, run closure.body (machine.entered closure values) = ended result later ∧
      ending = (Completion.ofExcept result).collapsed ∧ next = later.left machine.scope := by
  cases hbody : run closure.body (machine.entered closure values) with
  | ok outcome later =>
    rw [enter_of_eq_ok hdepth hbody] at henter
    refine ⟨.ok outcome, later, rfl, ?_⟩
    cases ending <;> cases henter
    cases outcome <;> exact ⟨rfl, rfl⟩
  | error reason later =>
    rw [enter_of_eq_error hdepth hbody] at henter
    cases ending <;> cases henter
    exact ⟨.error _, later, rfl, rfl, rfl⟩

/-- The rules derive whatever a computation of the task comes to. -/
def Derived (limit : Nat) (task : Task) (computation : Eval task.Result) : Prop :=
  ∀ machine ending next, computation machine = ended ending next →
    task.Ends limit machine (task.ofExcept ending) next

section

-- How the parts of an expression or a statement are evaluated and run.
variable {evaluate : Expr → Eval Value} {run : List Stmt → Eval Outcome}
  (hevaluate : ∀ expression, Derived limit (.evaluate expression) (evaluate expression))
  (hrun : ∀ body, Derived limit (.run body) (run body))

include hevaluate in
theorem derived_evaluateAll (expressions : List Expr) :
    Derived limit (.evaluateAll expressions) (evaluateAll evaluate expressions) := by
  induction expressions with
  | nil =>
    intro machine ending next hvalues
    obtain ⟨rfl, rfl⟩ := pure_eq_ended_iff.mp hvalues
    exact .noValues
  | cons first rest ih =>
    intro machine ending next hvalues
    obtain ⟨value, middle, hfirst, hvalues⟩ | ⟨error, hfirst, rfl⟩ := bind_eq_ended_iff.mp hvalues
    · have hfirst := hevaluate first _ _ _ hfirst
      obtain ⟨values, last, hrest, hvalues⟩ | ⟨error, hrest, rfl⟩ := bind_eq_ended_iff.mp hvalues
      · obtain ⟨rfl, rfl⟩ := pure_eq_ended_iff.mp hvalues
        exact .values hfirst (ih _ _ _ hrest)
      · exact .restRaised hfirst (ih _ _ _ hrest)
    · exact .firstRaised (hevaluate first _ _ _ hfirst)

theorem derived_runBody {execute : Stmt → Eval Outcome}
    (hexecute : ∀ statement, Derived limit (.execute statement) (execute statement))
    (body : List Stmt) : Derived limit (.run body) (runBody execute body) := by
  induction body with
  | nil =>
    intro machine ending next hbody
    obtain ⟨rfl, rfl⟩ := pure_eq_ended_iff.mp hbody
    exact .finished
  | cons first rest ih =>
    intro machine ending next hbody
    obtain ⟨outcome, middle, hfirst, hbody⟩ | ⟨error, hfirst, rfl⟩ := bind_eq_ended_iff.mp hbody
    · have hfirst := hexecute first _ _ _ hfirst
      cases outcome with
      | normal => exact .goesOn hfirst (ih _ _ _ hbody)
      | returned | broke | continued =>
        obtain ⟨rfl, rfl⟩ := pure_eq_ended_iff.mp hbody
        exact .stops hfirst nofun
    · exact .stops (hexecute first _ _ _ hfirst) nofun

include hevaluate hrun in
theorem derived_runBranches (otherwise : List Stmt) (branches : List (Expr × List Stmt)) :
    Derived limit (.choose branches otherwise) (runBranches evaluate run otherwise branches) := by
  induction branches with
  | nil => exact fun machine ending next hbody => .otherwise (hrun otherwise _ _ _ hbody)
  | cons branch rest ih =>
    obtain ⟨condition, body⟩ := branch
    intro machine ending next hbranches
    obtain ⟨value, middle, hcondition, hbranches⟩ | ⟨error, hcondition, rfl⟩ :=
      bind_eq_ended_iff.mp hbranches
    · have hcondition := hevaluate condition _ _ _ hcondition
      split at hbranches
      · next htruthy =>
        exact .chosen hcondition (Value.truthy_iff.mpr htruthy) (hrun body _ _ _ hbranches)
      · next htruthy =>
        exact .passedOver hcondition (mt Value.truthy_iff.mp htruthy) (ih _ _ _ hbranches)
    · exact .testRaised (hevaluate condition _ _ _ hcondition)

include hrun in
/-- What a word in place of a block comes to is derived for the block of that word. -/
theorem derived_runLoopBody (body : LoopBody) :
    Derived limit (.run (body.statements (.single 0))) (runLoopBody run body) := by
  cases body with
  | block body => exact hrun body
  | breakOnly =>
    intro machine ending next hbody
    obtain ⟨rfl, rfl⟩ := pure_eq_ended_iff.mp hbody
    exact .stops .breakLoop nofun
  | continueOnly =>
    intro machine ending next hbody
    obtain ⟨rfl, rfl⟩ := pure_eq_ended_iff.mp hbody
    exact .stops .continueLoop nofun

include hevaluate hrun in
theorem derived_runLoop (condition : Expr) (body : LoopBody) (rounds : Nat) :
    Derived limit (.loop condition body)
      (runLoop (evaluate condition) (runLoopBody run body) rounds) := by
  induction rounds with
  | zero =>
    intro machine ending next hloop
    cases ending <;> cases hloop
  | succ rounds ih =>
    intro machine ending next hloop
    obtain ⟨value, middle, hcondition, hloop⟩ | ⟨error, hcondition, rfl⟩ :=
      bind_eq_ended_iff.mp hloop
    · have hcondition := hevaluate condition _ _ _ hcondition
      split at hloop
      · next htruthy =>
        have htruthy := Value.truthy_iff.mpr htruthy
        obtain ⟨outcome, later, hbody, hloop⟩ | ⟨error, hbody, rfl⟩ := bind_eq_ended_iff.mp hloop
        · have hbody := derived_runLoopBody hrun body _ _ _ hbody
          cases outcome with
          | normal => exact .again hcondition htruthy hbody (.inl rfl) (ih _ _ _ hloop)
          | continued => exact .again hcondition htruthy hbody (.inr rfl) (ih _ _ _ hloop)
          | broke =>
            obtain ⟨rfl, rfl⟩ := pure_eq_ended_iff.mp hloop
            exact .broken hcondition htruthy hbody
          | returned given =>
            obtain ⟨rfl, rfl⟩ := pure_eq_ended_iff.mp hloop
            exact .returned hcondition htruthy hbody
        · exact .raised hcondition htruthy (derived_runLoopBody hrun body _ _ _ hbody)
      · next htruthy =>
        obtain ⟨rfl, rfl⟩ := pure_eq_ended_iff.mp hloop
        exact .done hcondition (mt Value.truthy_iff.mp htruthy)
    · exact .conditionRaised (hevaluate condition _ _ _ hcondition)

include hevaluate hrun in
theorem derived_call (name : String) (args : List Expr) (span : Span) :
    Derived limit (.call name args span) (call limit evaluate run span name args) := by
  intro machine ending next hcall
  obtain ⟨closure, middle, hcallee, hafter⟩ | ⟨error, hcallee, rfl⟩ := bind_eq_ended_iff.mp hcall
  · obtain ⟨hclosure, harity, rfl⟩ := callee_eq_ok hcallee
    have hclosure := Machine.sees_iff.mpr hclosure
    obtain ⟨values, last, hargs, henter⟩ | ⟨error, hargs, rfl⟩ := bind_eq_ended_iff.mp hafter
    · have hargs := derived_evaluateAll hevaluate args _ _ _ hargs
      by_cases hdepth : last.depth < limit
      · obtain ⟨completion, later, hbody, rfl, rfl⟩ := enter_eq_ended hdepth henter
        have hlength := harity.trans hargs.length_eq
        exact .entered hclosure harity hargs hdepth (Bindings.adds_iff.mpr ⟨hlength, rfl⟩)
          (Machine.opens_iff.mpr rfl) (hrun closure.body _ _ _ hbody) (Machine.closes_iff.mpr rfl)
      · have hdepth := Nat.not_lt.mp hdepth
        rw [enter_of_limit_le hdepth] at henter
        cases ending <;> cases henter
        exact .tooDeep hclosure harity hargs hdepth
    · exact .argumentRaised hclosure harity (derived_evaluateAll hevaluate args _ _ _ hargs)
  · cases hvalue : machine.store.get? machine.scope name with
    | none =>
      have hnone := Machine.not_sees_iff.mpr hvalue
      rw [callee_of_none hnone] at hcallee
      cases hcallee
      exact .undefinedFunction hnone
    | some value =>
      have hsees := Machine.sees_iff.mpr hvalue
      by_cases htype : value.type = .function
      · cases value <;> cases htype
        rw [callee_of_get hvalue] at hcallee
        split at hcallee
        · cases hcallee
        · next harity =>
          cases hcallee
          exact .arityMismatch hsees harity
      · rw [callee_of_not_function hsees htype] at hcallee
        cases hcallee
        exact .notFunction hsees htype

include hevaluate hrun in
theorem derived_evaluateWith (expression : Expr) :
    Derived limit (.evaluate expression) (evaluateWith limit evaluate run expression) := by
  intro machine ending next hvalue
  cases expression with
  | literal value =>
    obtain ⟨rfl, rfl⟩ := pure_eq_ended_iff.mp hvalue
    exact .literal (Literal.denotes_iff.mpr rfl)
  | name name span =>
    simp only [evaluateWith, bind_of_eq_ok (find?_apply _ _)] at hvalue
    cases hget : machine.store.get? machine.scope name with
    | none =>
      rw [hget] at hvalue
      cases ending <;> cases hvalue
      exact .undefinedVariable (Machine.not_sees_iff.mpr hget)
    | some value =>
      rw [hget] at hvalue
      obtain ⟨rfl, rfl⟩ := pure_eq_ended_iff.mp hvalue
      exact .name (Machine.sees_iff.mpr hget)
  | unary op operand span =>
    obtain ⟨value, middle, hoperand, hvalue⟩ | ⟨error, hoperand, rfl⟩ := bind_eq_ended_iff.mp hvalue
    · have hoperand := hevaluate operand _ _ _ hoperand
      obtain ⟨rfl, rfl⟩ := ofExcept_eq_ended_iff.mp hvalue
      cases hgiven : op.apply value with
      | ok given => exact .unary hoperand (UnaryOp.gives_iff.mpr hgiven)
      | error fault => exact .unaryFault hoperand (UnaryOp.gives_iff.mpr hgiven)
    · exact .unaryRaised (hevaluate operand _ _ _ hoperand)
  | binary op left right span =>
    obtain ⟨first, middle, hleft, hvalue⟩ | ⟨error, hleft, rfl⟩ := bind_eq_ended_iff.mp hvalue
    · have hleft := hevaluate left _ _ _ hleft
      obtain ⟨second, last, hright, hvalue⟩ | ⟨error, hright, rfl⟩ := bind_eq_ended_iff.mp hvalue
      · have hright := hevaluate right _ _ _ hright
        obtain ⟨rfl, rfl⟩ := ofExcept_eq_ended_iff.mp hvalue
        cases hgiven : op.apply first second with
        | ok given => exact .binary hleft hright (BinaryOp.gives_iff.mpr hgiven)
        | error fault => exact .binaryFault hleft hright (BinaryOp.gives_iff.mpr hgiven)
      · exact .rightRaised hleft (hevaluate right _ _ _ hright)
    · exact .leftRaised (hevaluate left _ _ _ hleft)
  | group inner span => exact .group (hevaluate inner _ _ _ hvalue)
  | print args span =>
    obtain ⟨values, middle, hargs, hvalue⟩ | ⟨error, hargs, rfl⟩ := bind_eq_ended_iff.mp hvalue
    · have hargs := derived_evaluateAll hevaluate args _ _ _ hargs
      obtain ⟨_, last, hprint, hvalue⟩ | ⟨error, hprint, rfl⟩ := bind_eq_ended_iff.mp hvalue
      · obtain ⟨rfl, rfl⟩ := pure_eq_ended_iff.mp hvalue
        exact .print hargs (printValues_iff.mp hprint)
      · exact .printRefused hargs (printValues_iff.mp hprint)
    · exact .printRaised (derived_evaluateAll hevaluate args _ _ _ hargs)
  | input prompt span => exact .input (readInput_iff.mp hvalue)
  | call name args span => exact .call (derived_call hevaluate hrun name args span _ _ _ hvalue)

include hrun in
theorem derived_rescue (body handler : List Stmt) (span : Span) :
    Derived limit (.execute (.guarded body handler span)) (rescue (run body) (run handler)) := by
  intro machine ending next hrescue
  unfold rescue at hrescue
  cases hbody : run body machine with
  | ok outcome middle =>
    rw [hbody] at hrescue
    cases ending <;> cases hrescue
    exact .unguarded (hrun body _ (.ok outcome) _ hbody) (Completion.ofExcept_ok_ne_raised outcome)
  | error reason middle =>
    rw [hbody] at hrescue
    cases reason with
    | failure failure =>
      cases failure with
      | runtime error =>
        exact .handled (hrun body _ (.error error) _ hbody) (hrun handler _ _ _ hrescue)
      | lexical | syntactic => cases ending <;> cases hrescue
    | outOfFuel => cases ending <;> cases hrescue

include hevaluate hrun in
theorem derived_executeWith (rounds : Nat) (statement : Stmt) :
    Derived limit (.execute statement) (executeWith limit rounds evaluate run statement) := by
  intro machine ending next houtcome
  cases statement with
  | pass span =>
    obtain ⟨rfl, rfl⟩ := pure_eq_ended_iff.mp houtcome
    exact .pass
  | breakLoop span =>
    obtain ⟨rfl, rfl⟩ := pure_eq_ended_iff.mp houtcome
    exact .breakLoop
  | continueLoop span =>
    obtain ⟨rfl, rfl⟩ := pure_eq_ended_iff.mp houtcome
    exact .continueLoop
  | assign target value span =>
    obtain ⟨given, middle, hvalue, hdefine⟩ | ⟨error, hvalue, rfl⟩ := bind_eq_ended_iff.mp houtcome
    · have hvalue := hevaluate value _ _ _ hvalue
      cases ending <;> cases hdefine
      exact .assign hvalue (Store.binds_iff.mpr rfl)
    · exact .assignRaised (hevaluate value _ _ _ hvalue)
  | returnWith value span =>
    cases value with
    | none =>
      obtain ⟨rfl, rfl⟩ := pure_eq_ended_iff.mp houtcome
      exact .returnNothing
    | some value =>
      obtain ⟨given, middle, hvalue, hreturn⟩ | ⟨error, hvalue, rfl⟩ := bind_eq_ended_iff.mp houtcome
      · obtain ⟨rfl, rfl⟩ := pure_eq_ended_iff.mp hreturn
        exact .returnValue (hevaluate value _ _ _ hvalue)
      · exact .returnRaised (hevaluate value _ _ _ hvalue)
  | loop condition body span =>
    exact .loop (derived_runLoop hevaluate hrun condition body rounds _ _ _ houtcome)
  | branch condition body elifs otherwise span =>
    exact .branch (derived_runBranches hevaluate hrun _ _ _ _ _ houtcome)
  | guarded body handler span => exact derived_rescue hrun body handler span _ _ _ houtcome
  | print args span =>
    obtain ⟨values, middle, hargs, houtcome⟩ | ⟨error, hargs, rfl⟩ := bind_eq_ended_iff.mp houtcome
    · have hargs := derived_evaluateAll hevaluate args _ _ _ hargs
      obtain ⟨_, last, hprint, hnormal⟩ | ⟨error, hprint, rfl⟩ := bind_eq_ended_iff.mp houtcome
      · obtain ⟨rfl, rfl⟩ := pure_eq_ended_iff.mp hnormal
        exact .printing hargs (printValues_iff.mp hprint)
      · exact .printing hargs (printValues_iff.mp hprint)
    · exact .printingRaised (derived_evaluateAll hevaluate args _ _ _ hargs)
  | input prompt span =>
    obtain ⟨_, last, hread, hnormal⟩ | ⟨error, hread, rfl⟩ := bind_eq_ended_iff.mp houtcome
    · obtain ⟨rfl, rfl⟩ := pure_eq_ended_iff.mp hnormal
      exact .asking (readInput_iff.mp hread)
    · exact .asking (readInput_iff.mp hread)
  | call name args span =>
    obtain ⟨_, last, hcall, hnormal⟩ | ⟨error, hcall, rfl⟩ := bind_eq_ended_iff.mp houtcome
    · obtain ⟨rfl, rfl⟩ := pure_eq_ended_iff.mp hnormal
      exact .calling (derived_call hevaluate hrun name args span _ _ _ hcall)
    · exact .calling (derived_call hevaluate hrun name args span _ _ _ hcall)
  | update name op span =>
    cases hget : machine.store.get? machine.scope name with
    | none =>
      have hnone := Machine.not_sees_iff.mpr hget
      have hupdate := bind_of_eq_error (updateName_of_none hnone span op) fun _ => pure Outcome.normal
      rw [executeWith, hupdate] at houtcome
      cases ending <;> cases houtcome
      exact .updateUndefined hnone
    | some current =>
      obtain ⟨home, hfinds⟩ := Machine.sees_iff.mpr hget
      cases happly : op.apply name current with
      | error fault =>
        have hupdate := bind_of_eq_error (updateName_of_fault ⟨home, hfinds⟩ happly span)
          fun _ => pure Outcome.normal
        rw [executeWith, hupdate] at houtcome
        cases ending <;> cases houtcome
        exact .updateFault ⟨home, hfinds⟩ (UpdateOp.gives_iff.mpr happly)
      | ok value =>
        have hupdate := bind_of_eq_ok (updateName_of_finds hfinds happly span)
          fun _ => pure Outcome.normal
        rw [executeWith, hupdate] at houtcome
        obtain ⟨rfl, rfl⟩ := pure_eq_ended_iff.mp houtcome
        exact .update hfinds (UpdateOp.gives_iff.mpr happly) (Store.binds_iff.mpr rfl)

end

/-- The rules derive whatever the evaluator comes to: by induction on its fuel, as each of its
    steps is one that a rule names. -/
theorem derived_run (limit fuel : Nat) :
    (∀ expression, Derived limit (.evaluate expression) (evaluate limit fuel expression)) ∧
      ∀ statement, Derived limit (.execute statement) (execute limit fuel statement) := by
  induction fuel with
  | zero =>
    constructor
    · intro expression machine ending next hvalue
      rw [evaluate_zero] at hvalue
      cases ending <;> cases hvalue
    · intro statement machine ending next houtcome
      rw [execute_zero] at houtcome
      cases ending <;> cases houtcome
  | succ fuel ih =>
    obtain ⟨hevaluate, hexecute⟩ := ih
    constructor
    · intro expression
      rw [evaluate_succ]
      exact derived_evaluateWith hevaluate (derived_runBody hexecute) expression
    · intro statement
      rw [execute_succ]
      exact derived_executeWith hevaluate (derived_runBody hexecute) fuel statement

end Eval
end KawaiiLang
