import KawaiiLang.Proofs.Eval.Functions
import KawaiiLang.Proofs.Program.Node
import KawaiiLang.Proofs.Semantics.Agreement

namespace KawaiiLang

namespace Law

variable {limit : Nat}

/-- What a task may give. -/
def GoodResult (law : Law limit) : (task : Task) → task.Result → Prop
  | .evaluate _ | .call .. => law.good
  | .evaluateAll _ => fun values => ∀ value ∈ values, law.good value
  | .execute _ | .run _ | .choose .. | .loop .. => law.GoodOutcome

theorem obeys_compute (law : Law limit) (fuel rounds : Nat) (task : Task) :
    law.Obeys .write (law.GoodResult task) (task.compute limit fuel rounds) := by
  have hevaluate := law.obeys_evaluate fuel
  have hrun := law.obeys_executeBody fuel
  cases task with
  | evaluate expression => exact (hevaluate expression).write
  | evaluateAll expressions => exact (obeys_evaluateAll hevaluate expressions).write
  | call name args span => exact (obeys_call hevaluate hrun span name args).write
  | execute statement => exact law.obeys_execute fuel statement
  | run body => exact hrun body
  | choose branches otherwise => exact obeys_runBranches hevaluate hrun otherwise branches
  | loop condition body =>
    exact obeys_runLoop (hevaluate condition) (obeys_runLoopBody hrun body) rounds

end Law

namespace Task

variable {limit : Nat} {machine next : Machine}

/-- What the rules derive keeps every law that running code keeps. -/
theorem Ends.ready {task : Task} {ending : task.Ending}
    (hends : task.Ends limit machine ending next) (law : Law limit) (hready : law.ready machine) :
    law.ready next ∧ ∀ result, task.toExcept ending = .ok result → law.GoodResult task result := by
  obtain ⟨fuel, hcompute⟩ := (exists_compute_iff task ending).mpr hends
  have hobeys := law.obeys_compute fuel fuel task
  cases hending : task.toExcept ending with
  | ok result =>
    rw [hending] at hcompute
    obtain ⟨_, hnext, hresult⟩ := hobeys.ready_of_eq_ok hready hcompute
    refine ⟨hnext, ?_⟩
    rintro _ ⟨⟩
    exact hresult
  | error error =>
    rw [hending] at hcompute
    exact ⟨(hobeys.ready_of_eq_error hready hcompute).2, nofun⟩

end Task

section

variable {limit : Nat} {S : Node → Prop} {machine next : Machine}

/-- With a node, all of its parts are in `S`. -/
def Node.Closed (S : Node → Prop) : Prop :=
  ∀ node, S node → ∀ part ∈ node.parts, S part

/-- The error is that of a node in `S`. -/
def RuntimeError.At (S : Node → Prop) (error : RuntimeError) : Prop :=
  ∃ node, S node ∧ node.span = error.span

/-- The nodes that a task works on. -/
def Task.nodes : Task → List Node
  | evaluate expression => [.expression expression]
  | evaluateAll expressions | call _ expressions _ => expressions.map .expression
  | execute statement => [.statement statement]
  | run body => body.map .statement
  | choose branches otherwise =>
    branches.flatMap (fun branch => .expression branch.1 :: branch.2.map .statement) ++
      otherwise.map .statement
  | loop condition body => .expression condition :: body.inner.map .statement

/-- The task works on nodes in `S` only. A call is also made for one of them. -/
def Task.Within (S : Node → Prop) : Task → Prop
  | call name args span =>
    (∃ node, S node ∧ node.span = span) ∧ ∀ node ∈ (call name args span).nodes, S node
  | task => ∀ node ∈ task.nodes, S node

/-- The body of the function is made of nodes in `S`. -/
def Closure.Within (S : Node → Prop) (closure : Closure) : Prop :=
  (Task.run closure.body).Within S

theorem Machine.Sends.span_eq {span : Span} {text : String} {error : RuntimeError}
    (hsends : machine.Sends span text (.error error) next) : error.span = span := by
  cases hsends
  rfl

theorem Machine.Prints.span_eq {span : Span} {values : List Value} {error : RuntimeError}
    (hprints : machine.Prints span values (.error error) next) : error.span = span := by
  cases hprints with
  | line _ _ hsends | refused _ hsends => exact hsends.span_eq

theorem Machine.Flushes.span_eq {span : Span} {error : RuntimeError}
    (hflushes : machine.Flushes span (.error error) next) : error.span = span := by
  cases hflushes
  rfl

theorem Machine.Receives.span_eq {span : Span} {error : RuntimeError}
    (hreceives : machine.Receives span (.error error) next) : error.span = span := by
  cases hreceives <;> rfl

theorem Machine.Asks.span_eq {span : Span} {prompt : Option String} {error : RuntimeError}
    (hasks : machine.Asks span prompt (.error error) next) : error.span = span := by
  cases hasks with
  | prompt _ hasks =>
    cases hasks with
    | line _ hreceives => exact hreceives.span_eq
    | flushRefused hflushes => exact hflushes.span_eq
  | promptRefused hsends => exact hsends.span_eq
  | line _ hreceives => exact hreceives.span_eq
  | flushRefused hflushes => exact hflushes.span_eq

/-- The two bare words of a loop raise no error. -/
theorem LoopBody.statements_eq_inner_of_raised {body : LoopBody} {span : Span} {error : RuntimeError}
    (hbody : (Task.run (body.statements span)).Ends limit machine (.raised error) next) :
    body.statements span = body.inner := by
  cases body with
  | block => rfl
  | breakOnly | continueOnly =>
    cases hbody with
    | goesOn hfirst => cases hfirst
    | stops hfirst => cases hfirst

/-- The error that a computation ends in, if it does. -/
def errorOf? {α : Type} : Except RuntimeError α → Option RuntimeError
  | .ok _ => none
  | .error error => some error

theorem errorOf?_collapsed (completion : Completion) :
    errorOf? completion.collapsed = errorOf? completion.toExcept := by
  cases completion <;> rfl

theorem errorOf?_ofEffect {α : Type} (ending : Except RuntimeError α) :
    errorOf? (Completion.ofEffect ending).toExcept = errorOf? ending := by
  cases ending <;> rfl

theorem eq_error_of_errorOf? {α : Type} {ending : Except RuntimeError α} {error : RuntimeError}
    (herror : errorOf? ending = some error) : ending = .error error := by
  cases ending <;> cases herror
  rfl

namespace Task

/-- A choice works on its first branch and on what the further choice works on. -/
theorem Within.of_choose_cons {condition : Expr} {body otherwise : List Stmt}
    {rest : List (Expr × List Stmt)}
    (hwithin : (choose ((condition, body) :: rest) otherwise).Within S) :
    (evaluate condition).Within S ∧ (run body).Within S ∧ (choose rest otherwise).Within S := by
  obtain ⟨hbranches, hotherwise⟩ := List.forall_mem_append.mp hwithin
  rw [List.flatMap_cons, List.forall_mem_append, List.forall_mem_cons] at hbranches
  obtain ⟨⟨hcondition, hbody⟩, hrest⟩ := hbranches
  refine ⟨List.forall_mem_singleton.mpr hcondition, hbody, ?_⟩
  exact List.forall_mem_append.mpr ⟨hrest, hotherwise⟩

/-- Whatever error a task ends in, it is an error of a node that the task works on, or of one
    in a function that the machine holds. -/
theorem Ends.error_at (hclosed : Node.Closed S) {task : Task} {ending : task.Ending}
    (hends : task.Ends limit machine ending next) (hwithin : task.Within S)
    (hholds : machine.Holds (Closure.Within S)) :
    ∀ error, errorOf? (task.toExcept ending) = some error → error.At S := by
  let law := Machine.holding limit (Closure.Within S)
  induction hends with
  -- No error at all.
  | literal | name | unary | binary | print | noValues | values | pass | breakLoop | continueLoop
  | assign | returnNothing | returnValue | update | finished | done | broken | returned =>
    intro error herror
    cases herror
  -- An error of the node itself, or of the node that makes a call.
  | undefinedVariable | unaryFault | binaryFault | updateFault | updateUndefined =>
    intro error herror
    cases herror
    exact ⟨_, hwithin _ List.mem_cons_self, rfl⟩
  | undefinedFunction | notFunction | arityMismatch | tooDeep =>
    intro error herror
    cases herror
    exact hwithin.1
  -- Output and input.
  | printRefused _ hprints =>
    intro error herror
    cases herror
    exact ⟨_, hwithin _ List.mem_cons_self, hprints.span_eq.symm⟩
  | printing _ hprints =>
    intro error herror
    cases eq_error_of_errorOf? (errorOf?_ofEffect _ ▸ herror)
    exact ⟨_, hwithin _ List.mem_cons_self, hprints.span_eq.symm⟩
  | input hasks =>
    intro error herror
    cases eq_error_of_errorOf? herror
    exact ⟨_, hwithin _ List.mem_cons_self, hasks.span_eq.symm⟩
  | asking hasks =>
    intro error herror
    cases eq_error_of_errorOf? (errorOf?_ofEffect _ ▸ herror)
    exact ⟨_, hwithin _ List.mem_cons_self, hasks.span_eq.symm⟩
  -- An error of the one task that all parts of a node go into.
  | unaryRaised _ ih | group _ ih | printRaised _ ih | assignRaised _ ih | returnRaised _ ih
  | loop _ ih | branch _ ih | printingRaised _ ih =>
    exact ih (hclosed _ (hwithin _ List.mem_cons_self)) hholds
  -- An error of one of several tasks; the machine is then as the tasks before left it.
  | leftRaised _ ih =>
    have hparts := hclosed _ (hwithin _ List.mem_cons_self)
    exact ih (List.forall_mem_singleton.mpr (hparts _ List.mem_cons_self)) hholds
  | rightRaised hleft _ _ ih =>
    have hparts := hclosed _ (hwithin _ List.mem_cons_self)
    exact ih (List.forall_mem_cons.mp hparts).2 (hleft.ready law hholds).1
  | firstRaised _ ih | stops _ _ ih | conditionRaised _ ih =>
    exact ih (List.forall_mem_singleton.mpr (hwithin _ List.mem_cons_self)) hholds
  | restRaised hfirst _ _ ih | goesOn hfirst _ _ ih =>
    exact ih (List.forall_mem_cons.mp hwithin).2 (hfirst.ready law hholds).1
  | unguarded _ _ ih =>
    have hparts := hclosed _ (hwithin _ List.mem_cons_self)
    exact ih (List.forall_mem_append.mp hparts).1 hholds
  | handled hbody _ _ ih =>
    have hparts := hclosed _ (hwithin _ List.mem_cons_self)
    exact ih (List.forall_mem_append.mp hparts).2 (hbody.ready law hholds).1
  | otherwise _ ih => exact ih hwithin hholds
  | chosen hcondition _ _ _ ih =>
    exact ih hwithin.of_choose_cons.2.1 (hcondition.ready law hholds).1
  | passedOver hcondition _ _ _ ih =>
    exact ih hwithin.of_choose_cons.2.2 (hcondition.ready law hholds).1
  | testRaised _ ih => exact ih hwithin.of_choose_cons.1 hholds
  | again hcondition _ hbody _ _ _ _ ih =>
    exact ih hwithin (hbody.ready law (hcondition.ready law hholds).1).1
  | raised hcondition _ hbody _ ih =>
    refine ih ?_ (hcondition.ready law hholds).1
    rw [LoopBody.statements_eq_inner_of_raised hbody]
    exact (List.forall_mem_cons.mp hwithin).2
  -- Calls. The function comes from the machine, and so does its body.
  | call _ ih =>
    have hnode := hwithin _ List.mem_cons_self
    exact ih ⟨⟨_, hnode, rfl⟩, hclosed _ hnode⟩ hholds
  | calling _ ih =>
    have hnode := hwithin _ List.mem_cons_self
    rw [toExcept, errorOf?_ofEffect]
    exact ih ⟨⟨_, hnode, rfl⟩, hclosed _ hnode⟩ hholds
  | argumentRaised _ _ _ ih => exact ih hwithin.2 hholds
  | entered hclosure _ hargs hdepth hbindings hopens _ _ _ ih =>
    have hbody := law.good_of_get hholds (Machine.sees_iff.mp hclosure)
    obtain ⟨hmiddle, hvalues⟩ := hargs.ready law hholds
    obtain ⟨hentered, _⟩ := law.enter hmiddle hdepth hbody (hvalues _ rfl)
    rw [toExcept, id, errorOf?_collapsed]
    rw [hopens.entered_eq hbindings] at hentered
    exact ih (hbody _ rfl) hentered

end Task
end
end KawaiiLang
