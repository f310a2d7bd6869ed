import KawaiiLang.Proofs.Semantics.Rules

namespace KawaiiLang

/-- The ending of a statement with errors apart from the outcomes. -/
def Completion.toExcept : Completion → Except RuntimeError Outcome
  | normal => .ok .normal
  | returned value => .ok (.returned value)
  | broke => .ok .broke
  | continued => .ok .continued
  | raised error => .error error

/-- The ending of a task with errors apart from all others. -/
def Task.toExcept : (task : Task) → task.Ending → Except RuntimeError task.Result
  | evaluate _ | call .. | evaluateAll _ => id
  | execute _ | run _ | choose .. | loop .. => Completion.toExcept

namespace Eval

variable {α β : Type} {limit : Nat} {machine middle next : Machine}

theorem write_iff {span : Span} {text : String} {ending : Except RuntimeError Unit} :
    write span text machine = ended ending next ↔ machine.Sends span text ending next := by
  obtain ⟨store, scope, depth, input, output⟩ := machine
  unfold write
  dsimp only
  constructor
  · intro hwrite
    split at hwrite <;> cases ending <;> cases hwrite
    · exact .done ‹_›
    · exact .refused ‹_›
  · intro hsends
    cases hsends with
    | done houtput | refused houtput =>
      dsimp only at houtput
      rw [houtput]
      rfl

theorem flush_iff {span : Span} {ending : Except RuntimeError Unit} :
    flush span machine = ended ending next ↔ machine.Flushes span ending next := by
  obtain ⟨store, scope, depth, input, output⟩ := machine
  unfold flush
  dsimp only
  constructor
  · intro hflush
    split at hflush <;> cases ending <;> cases hflush
    · exact .done ‹_›
    · exact .refused ‹_›
  · intro hflushes
    cases hflushes with
    | done houtput | refused houtput =>
      dsimp only at houtput
      rw [houtput]
      rfl

theorem readLine_iff {span : Span} {ending : Except RuntimeError Value} :
    readLine span machine = ended ending next ↔ machine.Receives span ending next := by
  rw [readLine_apply]
  constructor
  · intro hread
    split at hread
    · next hline =>
      cases ending <;> cases hread
      exact .exhausted (Input.readLine?_eq_none_iff.mp hline)
    · next hline =>
      rw [Input.readLine?_eq_some_iff] at hline
      split at hread <;> cases ending <;> cases hread
      · next htext =>
        exact .line hline (InputLine.text?_eq_some_iff.mp htext) (InputLine.stripped_content _)
      · next htext => exact .notText hline (InputLine.text?_eq_none_iff.mp htext)
  · intro hreceives
    cases hreceives with
    | line hline htext hcontent =>
      rw [hline.readLine?_eq]
      dsimp only
      rw [InputLine.text?_eq_some_iff.mpr htext, ← InputLine.stripped_iff.mp hcontent]
      rfl
    | notText hline htext =>
      rw [hline.readLine?_eq]
      dsimp only
      rw [InputLine.text?_eq_none_iff.mpr htext]
      rfl
    | exhausted hbytes =>
      rw [Input.readLine?_eq_none_iff.mpr hbytes]
      rfl

/-- A sequence comes to an end in its second step or in its first, by an error. -/
theorem bind_eq_ended_iff {step : Eval α} {after : α → Eval β} {ending : Except RuntimeError β} :
    (step >>= after) machine = ended ending next ↔
      (∃ value middle, step machine = ended (.ok value) middle ∧
          after value middle = ended ending next) ∨
        ∃ error, step machine = ended (.error error) next ∧ ending = .error error := by
  cases hstep : step machine with
  | ok value middle =>
    rw [bind_of_eq_ok hstep]
    constructor
    · intro hafter
      exact .inl ⟨value, middle, rfl, hafter⟩
    · rintro (⟨_, _, hsame, hafter⟩ | ⟨_, hsame, _⟩)
      · cases hsame
        exact hafter
      · cases hsame
  | error reason middle =>
    rw [bind_of_eq_error hstep]
    constructor
    · intro herror
      cases ending <;> cases herror
      exact .inr ⟨_, rfl, rfl⟩
    · rintro (⟨_, _, hsame, _⟩ | ⟨_, hsame, rfl⟩)
      · cases hsame
      · cases hsame
        rfl

theorem printValues_iff {span : Span} {values : List Value} {ending : Except RuntimeError Unit} :
    printValues span values machine = ended ending next ↔ machine.Prints span values ending next := by
  rw [printValues, bind_eq_ended_iff]
  constructor
  · rintro (⟨_, middle, hline, hend⟩ | ⟨error, hline, rfl⟩)
    · exact .line (Value.displayLine_iff.mpr rfl) (write_iff.mp hline) (write_iff.mp hend)
    · exact .refused (Value.displayLine_iff.mpr rfl) (write_iff.mp hline)
  · intro hprints
    cases hprints with
    | line htext hline hend =>
      rw [Value.displayLine_iff.mp htext]
      exact .inl ⟨_, _, write_iff.mpr hline, write_iff.mpr hend⟩
    | refused htext hline =>
      rw [Value.displayLine_iff.mp htext]
      exact .inr ⟨_, write_iff.mpr hline, rfl⟩

theorem readInput_iff {span : Span} {prompt : Option String} {ending : Except RuntimeError Value} :
    readInput span prompt machine = ended ending next ↔ machine.Asks span prompt ending next := by
  have hask (machine : Machine) : (flush span >>= fun _ => readLine span) machine = ended ending next ↔
      machine.Asks span none ending next := by
    rw [bind_eq_ended_iff]
    constructor
    · rintro (⟨_, middle, hflush, hread⟩ | ⟨error, hflush, rfl⟩)
      · exact .line (flush_iff.mp hflush) (readLine_iff.mp hread)
      · exact .flushRefused (flush_iff.mp hflush)
    · intro hasks
      cases hasks with
      | line hflushes hreceives =>
        exact .inl ⟨_, _, flush_iff.mpr hflushes, readLine_iff.mpr hreceives⟩
      | flushRefused hflushes => exact .inr ⟨_, flush_iff.mpr hflushes, rfl⟩
  cases prompt with
  | none => exact hask machine
  | some text =>
    change (write span text >>= fun _ => flush span >>= fun _ => readLine span) machine = _ ↔ _
    rw [bind_eq_ended_iff]
    constructor
    · rintro (⟨_, middle, hwrite, hread⟩ | ⟨error, hwrite, rfl⟩)
      · exact .prompt (write_iff.mp hwrite) ((hask middle).mp hread)
      · exact .promptRefused (write_iff.mp hwrite)
    · intro hasks
      cases hasks with
      | prompt hsends hasks => exact .inl ⟨_, _, write_iff.mpr hsends, (hask _).mpr hasks⟩
      | promptRefused hsends => exact .inr ⟨_, write_iff.mpr hsends, rfl⟩

theorem callee_of_none {name : String} (hnone : ∀ value, ¬ machine.Sees name value) (span : Span)
    (given : Nat) :
    callee span name given machine = .error (.fault ⟨.undefinedFunction name, span⟩) machine := by
  rw [callee, bind_of_eq_ok (find?_apply name machine), Machine.not_sees_iff.mp hnone]
  rfl

theorem callee_of_not_function {name : String} {value : Value} (hvalue : machine.Sees name value)
    (htype : value.type ≠ .function) (span : Span) (given : Nat) :
    callee span name given machine = .error (.fault ⟨.notFunction name value.type, span⟩) machine := by
  rw [callee, bind_of_eq_ok (find?_apply name machine), Machine.sees_iff.mp hvalue]
  cases value with
  | function => exact absurd rfl htype
  | unit | bool | int | float | str => rfl

theorem updateName_of_none {name : String} (hnone : ∀ value, ¬ machine.Sees name value) (span : Span)
    (op : UpdateOp) :
    updateName span name op machine = .error (.fault ⟨.undefinedVariable name, span⟩) machine := by
  rw [updateName, bind_of_eq_ok (find?_apply name machine), Machine.not_sees_iff.mp hnone]
  rfl

theorem updateName_of_fault {name : String} {op : UpdateOp} {current : Value} {fault : RuntimeFault}
    (hcurrent : machine.Sees name current) (happly : op.apply name current = .error fault)
    (span : Span) :
    updateName span name op machine = .error (.fault ⟨fault, span⟩) machine := by
  rw [updateName, bind_of_eq_ok (find?_apply name machine), Machine.sees_iff.mp hcurrent]
  dsimp only
  rw [happly]
  rfl

theorem updateName_of_finds {name : String} {op : UpdateOp} {current value : Value} {home : FrameId}
    (hfinds : machine.store.Finds name machine.scope home current)
    (happly : op.apply name current = .ok value) (span : Span) :
    updateName span name op machine =
      .ok () { machine with store := machine.store.define home name value } := by
  have hassign : machine.store.assign? machine.scope name value =
      some (machine.store.define home name value) := by
    rw [Store.assign?, (Store.finds_iff.mp hfinds).1, Option.map_some]
  rw [updateName, bind_of_eq_ok (find?_apply name machine), Machine.sees_iff.mp ⟨home, hfinds⟩]
  dsimp only
  rw [happly]
  change EStateM.Result.ok ()
    { machine with
      store := (machine.store.assign? machine.scope name value).getD machine.store } = _
  rw [hassign, Option.getD_some]

/-- With enough fuel, and enough rounds for its loops, a computation comes to this end. -/
def ComesTo (computation : Nat → Nat → Eval α) (machine : Machine) (ending : Except RuntimeError α)
    (next : Machine) : Prop :=
  ∃ enough, ∀ fuel ≥ enough, ∀ rounds ≥ enough,
    computation fuel rounds machine = ended ending next

namespace ComesTo

theorem of_eq {computation : Nat → Nat → Eval α} {ending : Except RuntimeError α}
    (hcomputation : ∀ fuel rounds, computation fuel rounds machine = ended ending next) :
    ComesTo computation machine ending next :=
  ⟨0, fun fuel _ rounds _ => hcomputation fuel rounds⟩

section

variable {step : Nat → Nat → Eval α} {after : Nat → Nat → α → Eval β}

theorem bind {value : α} {ending : Except RuntimeError β}
    (hstep : ComesTo step machine (.ok value) middle)
    (hafter : ComesTo (fun fuel rounds => after fuel rounds value) middle ending next) :
    ComesTo (fun fuel rounds => step fuel rounds >>= after fuel rounds) machine ending next := by
  obtain ⟨first, hfirst⟩ := hstep
  obtain ⟨second, hsecond⟩ := hafter
  refine ⟨max first second, ?_⟩
  intro fuel hfuel rounds hrounds
  have hvalue := hfirst fuel (by omega) rounds (by omega)
  exact (bind_of_eq_ok hvalue (after fuel rounds)).trans
    (hsecond fuel (by omega) rounds (by omega))

theorem bind_error {error : RuntimeError} (hstep : ComesTo step machine (.error error) next) :
    ComesTo (fun fuel rounds => step fuel rounds >>= after fuel rounds) machine (.error error) next := by
  obtain ⟨enough, henough⟩ := hstep
  exact ⟨enough, fun fuel hfuel rounds hrounds =>
    bind_of_eq_error (henough fuel hfuel rounds hrounds) (after fuel rounds)⟩

end

theorem ite_true {p : Prop} [Decidable p] (hp : p) {first second : Nat → Nat → Eval α}
    {ending : Except RuntimeError α} (hfirst : ComesTo first machine ending next) :
    ComesTo (fun fuel rounds => if p then first fuel rounds else second fuel rounds) machine ending
      next := by
  simpa only [if_pos hp] using hfirst

theorem ite_false {p : Prop} [Decidable p] (hp : ¬ p) {first second : Nat → Nat → Eval α}
    {ending : Except RuntimeError α} (hsecond : ComesTo second machine ending next) :
    ComesTo (fun fuel rounds => if p then first fuel rounds else second fuel rounds) machine ending
      next := by
  simpa only [if_neg hp] using hsecond

/-- What all large amounts of fuel suffice for below an expression, the next amount suffices for
    with it. -/
theorem evaluate {expression : Expr} {ending : Except RuntimeError Value}
    (hwith : ComesTo (fun fuel _ =>
      evaluateWith limit (Eval.evaluate limit fuel) (executeBody limit fuel) expression)
      machine ending next) :
    ComesTo (Task.compute limit · · (.evaluate expression)) machine ending next := by
  obtain ⟨enough, henough⟩ := hwith
  refine ⟨enough + 1, ?_⟩
  intro fuel hfuel rounds hrounds
  obtain ⟨fuel, rfl⟩ : ∃ before, fuel = before + 1 := ⟨fuel - 1, by omega⟩
  change Eval.evaluate limit (fuel + 1) expression machine = _
  rw [evaluate_succ]
  exact henough fuel (by omega) rounds (by omega)

theorem execute {statement : Stmt} {ending : Except RuntimeError Outcome}
    (hwith : ComesTo (fun fuel rounds =>
      executeWith limit rounds (Eval.evaluate limit fuel) (executeBody limit fuel) statement)
      machine ending next) :
    ComesTo (Task.compute limit · · (.execute statement)) machine ending next := by
  obtain ⟨enough, henough⟩ := hwith
  refine ⟨enough + 1, ?_⟩
  intro fuel hfuel rounds hrounds
  obtain ⟨fuel, rfl⟩ : ∃ before, fuel = before + 1 := ⟨fuel - 1, by omega⟩
  change Eval.execute limit (fuel + 1) statement machine = _
  rw [execute_succ]
  exact henough fuel (by omega) fuel (by omega)

/-- What all large numbers of rounds suffice for behind a round, the next number suffices for
    with it. -/
theorem loop {condition : Expr} {body : LoopBody} {ending : Except RuntimeError Outcome}
    (hround : ComesTo (fun fuel rounds =>
      runLoop (Eval.evaluate limit fuel condition) (runLoopBody (executeBody limit fuel) body)
        (rounds + 1)) machine ending next) :
    ComesTo (Task.compute limit · · (.loop condition body)) machine ending next := by
  obtain ⟨enough, henough⟩ := hround
  refine ⟨enough + 1, ?_⟩
  intro fuel hfuel rounds hrounds
  obtain ⟨rounds, rfl⟩ : ∃ before, rounds = before + 1 := ⟨rounds - 1, by omega⟩
  exact henough fuel (by omega) rounds (by omega)

/-- A word in place of a block does what the block of that word does. -/
theorem loopBody {body : LoopBody} {span : Span} {ending : Except RuntimeError Outcome}
    (hbody : ComesTo (Task.compute limit · · (.run (body.statements span))) machine ending next) :
    ComesTo (fun fuel _ => runLoopBody (executeBody limit fuel) body) machine ending next := by
  cases body with
  | block => exact hbody
  | breakOnly | continueOnly =>
    obtain ⟨enough, henough⟩ := hbody
    have hword := henough (enough + 1) (by omega) enough (by omega)
    simp only [Task.compute, LoopBody.statements, executeBody, runBody, execute_succ,
      executeWith] at hword
    exact .of_eq fun _ _ => hword

theorem rescue {body handler : Nat → Nat → Eval Outcome} {completion : Completion}
    (hbody : ComesTo body machine completion.toExcept next)
    (hcompletion : ∀ error, completion ≠ .raised error) :
    ComesTo (fun fuel rounds => Eval.rescue (body fuel rounds) (handler fuel rounds)) machine
      completion.toExcept next := by
  obtain ⟨enough, henough⟩ := hbody
  refine ⟨enough, ?_⟩
  intro fuel hfuel rounds hrounds
  simp only [Eval.rescue, henough fuel hfuel rounds hrounds]
  cases completion with
  | raised error => exact absurd rfl (hcompletion error)
  | normal | returned | broke | continued => rfl

theorem rescue_error {body handler : Nat → Nat → Eval Outcome} {error : RuntimeError}
    {ending : Except RuntimeError Outcome} (hbody : ComesTo body machine (.error error) middle)
    (hhandler : ComesTo handler middle ending next) :
    ComesTo (fun fuel rounds => Eval.rescue (body fuel rounds) (handler fuel rounds)) machine ending
      next := by
  obtain ⟨first, hfirst⟩ := hbody
  obtain ⟨second, hsecond⟩ := hhandler
  refine ⟨max first second, ?_⟩
  intro fuel hfuel rounds hrounds
  simp only [Eval.rescue, hfirst fuel (by omega) rounds (by omega)]
  exact hsecond fuel (by omega) rounds (by omega)

theorem enter {span : Span} {name : String} {closure : Closure} {values : List Value}
    {completion : Completion} (hdepth : machine.depth < limit)
    (hbody : ComesTo (Task.compute limit · · (.run closure.body)) (machine.entered closure values)
      completion.toExcept next) :
    ComesTo (fun fuel _ => Eval.enter limit (executeBody limit fuel) span name closure values)
      machine completion.collapsed (next.left machine.scope) := by
  obtain ⟨enough, henough⟩ := hbody
  refine ⟨enough, ?_⟩
  intro fuel hfuel rounds hrounds
  have hrun := henough fuel hfuel rounds hrounds
  cases completion with
  | raised error => exact enter_of_eq_error hdepth hrun
  | normal | returned | broke | continued => exact enter_of_eq_ok hdepth hrun

/-- A callee that was found is handed on. -/
theorem callee {name : String} {closure : Closure} {given : Nat} {span : Span}
    {after : Nat → Nat → Closure → Eval α} {ending : Except RuntimeError α}
    (hclosure : machine.Sees name (.function closure)) (harity : closure.params.length = given)
    (hafter : ComesTo (fun fuel rounds => after fuel rounds closure) machine ending next) :
    ComesTo (fun fuel rounds => Eval.callee span name given >>= after fuel rounds) machine ending
      next := by
  refine .bind (.of_eq fun _ _ => ?_) hafter
  rw [callee_of_get (Machine.sees_iff.mp hclosure), if_pos harity]
  rfl

end ComesTo
end Eval

open Eval

/-- What the rules derive, the evaluator does: by induction on the derivation, as each rule
    names the steps that the evaluator takes. -/
theorem Task.Ends.comesTo {limit : Nat} {task : Task} {machine next : Machine}
    {ending : task.Ending} (hends : task.Ends limit machine ending next) :
    ComesTo (task.compute limit · ·) machine (task.toExcept ending) next := by
  induction hends with
  | literal hvalue =>
    rw [← Literal.denotes_iff.mp hvalue]
    exact .evaluate (.of_eq fun _ _ => rfl)
  | name hvalue =>
    refine .evaluate (.of_eq fun _ _ => ?_)
    simp only [evaluateWith, bind_of_eq_ok (find?_apply _ _), Machine.sees_iff.mp hvalue]
    rfl
  | undefinedVariable hnone =>
    refine .evaluate (.of_eq fun _ _ => ?_)
    simp only [evaluateWith, bind_of_eq_ok (find?_apply _ _), Machine.not_sees_iff.mp hnone]
    rfl
  | unary _ hgives ih | unaryFault _ hgives ih =>
    refine .evaluate (.bind ih (.of_eq fun _ _ => ?_))
    rw [UnaryOp.gives_iff.mp hgives]
    rfl
  | unaryRaised _ ih => exact .evaluate (.bind_error ih)
  | binary _ _ hgives ihleft ihright | binaryFault _ _ hgives ihleft ihright =>
    refine .evaluate (.bind ihleft (.bind ihright (.of_eq fun _ _ => ?_)))
    rw [BinaryOp.gives_iff.mp hgives]
    rfl
  | leftRaised _ ih => exact .evaluate (.bind_error ih)
  | rightRaised _ _ ihleft ihright => exact .evaluate (.bind ihleft (.bind_error ihright))
  | group _ ih => exact .evaluate ih
  | print _ hprints ih =>
    have hprint := printValues_iff.mpr hprints
    exact .evaluate (.bind ih (.bind (.of_eq fun _ _ => hprint) (.of_eq fun _ _ => rfl)))
  | printRefused _ hprints ih =>
    have hprint := printValues_iff.mpr hprints
    exact .evaluate (.bind ih (.bind_error (.of_eq fun _ _ => hprint)))
  | printRaised _ ih => exact .evaluate (.bind_error ih)
  | input hasks => exact .evaluate (.of_eq fun _ _ => readInput_iff.mpr hasks)
  | call _ ih => exact .evaluate ih
  | noValues => exact .of_eq fun _ _ => rfl
  | values _ _ ihfirst ihrest => exact .bind ihfirst (.bind ihrest (.of_eq fun _ _ => rfl))
  | firstRaised _ ih => exact .bind_error ih
  | restRaised _ _ ihfirst ihrest => exact .bind ihfirst (.bind_error ihrest)
  | undefinedFunction hnone => exact .bind_error (.of_eq fun _ _ => callee_of_none hnone _ _)
  | notFunction hvalue htype =>
    exact .bind_error (.of_eq fun _ _ => callee_of_not_function hvalue htype _ _)
  | arityMismatch hclosure harity =>
    refine .bind_error (.of_eq fun _ _ => ?_)
    rw [callee_of_get (Machine.sees_iff.mp hclosure), if_neg harity]
    rfl
  | argumentRaised hclosure harity _ ih => exact .callee hclosure harity (.bind_error ih)
  | tooDeep hclosure harity _ hdepth ih =>
    exact .callee hclosure harity (.bind ih (.of_eq fun _ _ => enter_of_limit_le hdepth))
  | entered hclosure harity _ hdepth hbindings hopens _ hcloses ihargs ihbody =>
    obtain rfl := Machine.closes_iff.mp hcloses
    rw [← hopens.entered_eq hbindings] at ihbody
    exact .callee hclosure harity (.bind ihargs (.enter hdepth ihbody))
  | pass | breakLoop | continueLoop | returnNothing => exact .execute (.of_eq fun _ _ => rfl)
  | assign _ hbinds ih =>
    obtain rfl := Store.binds_iff.mp hbinds
    exact .execute (.bind ih (.of_eq fun _ _ => rfl))
  | returnValue _ ih => exact .execute (.bind ih (.of_eq fun _ _ => rfl))
  | assignRaised _ ih | returnRaised _ ih => exact .execute (.bind_error ih)
  | loop _ ih | branch _ ih => exact .execute ih
  | unguarded _ hcompletion ih => exact .execute (.rescue ih hcompletion)
  | handled _ _ ihbody ihhandler => exact .execute (.rescue_error ihbody ihhandler)
  | @printing _ _ _ _ _ _ ending _ hprints ih =>
    have hprint := printValues_iff.mpr hprints
    cases ending with
    | ok value => exact .execute (.bind ih (.bind (.of_eq fun _ _ => hprint) (.of_eq fun _ _ => rfl)))
    | error error => exact .execute (.bind ih (.bind_error (.of_eq fun _ _ => hprint)))
  | printingRaised _ ih => exact .execute (.bind_error ih)
  | @asking _ _ _ _ ending hasks =>
    have hread := readInput_iff.mpr hasks
    cases ending with
    | ok value => exact .execute (.bind (.of_eq fun _ _ => hread) (.of_eq fun _ _ => rfl))
    | error error => exact .execute (.bind_error (.of_eq fun _ _ => hread))
  | @calling _ _ _ _ _ ending _ ih =>
    cases ending with
    | ok value => exact .execute (.bind ih (.of_eq fun _ _ => rfl))
    | error error => exact .execute (.bind_error ih)
  | update hfinds hgives hbinds =>
    obtain rfl := Store.binds_iff.mp hbinds
    have hupdate := updateName_of_finds hfinds (UpdateOp.gives_iff.mp hgives)
    exact .execute (.bind (.of_eq fun _ _ => hupdate _) (.of_eq fun _ _ => rfl))
  | updateFault hcurrent hgives =>
    have hupdate := updateName_of_fault hcurrent (UpdateOp.gives_iff.mp hgives)
    exact .execute (.bind_error (.of_eq fun _ _ => hupdate _))
  | updateUndefined hnone =>
    exact .execute (.bind_error (.of_eq fun _ _ => updateName_of_none hnone _ _))
  | finished => exact .of_eq fun _ _ => rfl
  | goesOn _ _ ihfirst ihrest => exact .bind ihfirst ihrest
  | @stops _ _ _ _ completion _ hcompletion ih =>
    cases completion with
    | normal => exact absurd rfl hcompletion
    | raised error => exact .bind_error ih
    | returned | broke | continued => exact .bind ih (.of_eq fun _ _ => rfl)
  | otherwise _ ih => exact ih
  | chosen _ htruthy _ ihcondition ihbody =>
    exact .bind ihcondition (.ite_true (Value.truthy_iff.mp htruthy) ihbody)
  | passedOver _ htruthy _ ihcondition ihrest =>
    exact .bind ihcondition (.ite_false (mt Value.truthy_iff.mpr htruthy) ihrest)
  | testRaised _ ih => exact .bind_error ih
  | done _ htruthy ih =>
    exact .loop (.bind ih (.ite_false (mt Value.truthy_iff.mpr htruthy) (.of_eq fun _ _ => rfl)))
  | conditionRaised _ ih => exact .loop (.bind_error ih)
  | again _ htruthy _ hround _ ihcondition ihbody ihloop =>
    refine .loop (.bind ihcondition (.ite_true (Value.truthy_iff.mp htruthy) ?_))
    obtain rfl | rfl := hround
    · exact .bind (.loopBody ihbody) ihloop
    · exact .bind (.loopBody ihbody) ihloop
  | broken _ htruthy _ ihcondition ihbody | returned _ htruthy _ ihcondition ihbody =>
    exact .loop (.bind ihcondition (.ite_true (Value.truthy_iff.mp htruthy)
      (.bind (.loopBody ihbody) (.of_eq fun _ _ => rfl))))
  | raised _ htruthy _ ihcondition ihbody =>
    exact .loop (.bind ihcondition (.ite_true (Value.truthy_iff.mp htruthy)
      (.bind_error (.loopBody ihbody))))

end KawaiiLang
