import Mathlib.Data.List.Forall2
import KawaiiLang.Proofs.Eval.Law
import KawaiiLang.Proofs.Value.Alike

namespace KawaiiLang

/-- Two values that are alike, each of them allowed by a law. -/
structure Law.Corresponds {limit : Nat} (law : Law limit) (pairing : Pairing)
    (first second : Value) : Prop where
  alike : first.Alike pairing second
  good_first : law.good first
  good_second : law.good second

theorem Law.corresponds_of_forall₂ {limit : Nat} {law : Law limit} {pairing : Pairing}
    {values values' : List Value} (hvalues : List.Forall₂ (Value.Alike pairing) values values')
    (hgood : ∀ value ∈ values, law.good value) (hgood' : ∀ value ∈ values', law.good value) :
    List.Forall₂ (law.Corresponds pairing) values values' := by
  induction hvalues with
  | nil => exact .nil
  | cons hvalue _ ih =>
    rw [List.forall_mem_cons] at hgood hgood'
    exact .cons ⟨hvalue, hgood.1, hgood'.1⟩ (ih hgood.2 hgood'.2)

theorem Law.good_of_forall₂ {limit : Nat} {law : Law limit} {pairing : Pairing}
    {values values' : List Value} (hvalues : List.Forall₂ (law.Corresponds pairing) values values') :
    (∀ value ∈ values, law.good value) ∧ ∀ value ∈ values', law.good value := by
  induction hvalues with
  | nil => exact ⟨nofun, nofun⟩
  | cons hvalue _ ih =>
    exact ⟨List.forall_mem_cons.mpr ⟨hvalue.good_first, ih.1⟩,
      List.forall_mem_cons.mpr ⟨hvalue.good_second, ih.2⟩⟩

/-- A relation between two machines that is kept when both do the same thing, with the
    functions of one paired with those of the other. Each of the machines obeys a law of
    its own, so that a caller finds its machine again after a call. -/
structure Simulation (limit : Nat) where
  law : Law limit
  pairing : Pairing
  related : Machine → Machine → Prop
  ready {first second : Machine} : related first second → law.ready first ∧ law.ready second
  depth_eq {first second : Machine} : related first second → first.depth = second.depth
  input_eq {first second : Machine} : related first second → first.input = second.input
  get {first second : Machine} (name : String) : related first second →
    Option.Rel (Value.Alike pairing) (first.store.get? first.scope name)
      (second.store.get? second.scope name)
  input {first second : Machine} (input : Input) : related first second →
    related { first with input } { second with input }
  write {first second : Machine} (text : String) : related first second →
    (first.output.write text).1 = (second.output.write text).1 ∧
      related { first with output := (first.output.write text).2 }
        { second with output := (second.output.write text).2 }
  flush {first second : Machine} : related first second →
    first.output.flush.1 = second.output.flush.1 ∧
      related { first with output := first.output.flush.2 }
        { second with output := second.output.flush.2 }
  define {first second : Machine} {value value' : Value} (name : String) : related first second →
    law.Corresponds pairing value value' →
    related { first with store := first.store.define first.scope name value }
      { second with store := second.store.define second.scope name value' }
  update {first second : Machine} {name : String} {op : UpdateOp}
    {current current' value : Value} : related first second →
    first.store.get? first.scope name = some current →
    second.store.get? second.scope name = some current' →
    op.apply name current = .ok value → op.apply name current' = .ok value →
    related
      { first with store := (first.store.assign? first.scope name value).getD first.store }
      { second with store := (second.store.assign? second.scope name value).getD second.store }
  enter {first second : Machine} {closure closure' : Closure} {args args' : List Value} :
    related first second → first.depth < limit →
    law.Corresponds pairing (.function closure) (.function closure') →
    List.Forall₂ (law.Corresponds pairing) args args' →
    related (first.entered closure args) (second.entered closure' args') ∧
      ∀ next next', law.change .write (first.entered closure args) next →
        law.change .write (second.entered closure' args') next' → related next next' →
        related (next.left first.scope) (next'.left second.scope)

namespace Simulation

variable {limit : Nat} {α β γ δ : Type}

/-- The first result is followed by the second: both are values that belong together, or
    both are the same failure, and so do the machines. A run without enough fuel is followed
    by any other. -/
def Follows (machines : Machine → Machine → Prop) (values : α → β → Prop) :
    EStateM.Result Interrupt Machine α → EStateM.Result Interrupt Machine β → Prop
  | .error .outOfFuel _, _ => True
  | .ok value first, .ok value' second => values value value' ∧ machines first second
  | .error (.failure failure) first, .error (.failure failure') second =>
    failure = failure' ∧ machines first second
  | _, _ => False

/-- The three ways in which one result follows another. -/
theorem Follows.cases {machines : Machine → Machine → Prop} {values : α → β → Prop}
    {left : EStateM.Result Interrupt Machine α} {right : EStateM.Result Interrupt Machine β}
    (hfollows : Follows machines values left right) :
    (∃ first, left = .error .outOfFuel first) ∨
      (∃ value value' first second, left = .ok value first ∧ right = .ok value' second ∧
        values value value' ∧ machines first second) ∨
      ∃ failure first second, left = .error (.failure failure) first ∧
        right = .error (.failure failure) second ∧ machines first second := by
  cases left with
  | ok value first =>
    cases right with
    | ok value' second => exact .inr (.inl ⟨_, _, _, _, rfl, rfl, hfollows⟩)
    | error reason' second => exact hfollows.elim
  | error reason first =>
    cases reason with
    | outOfFuel => exact .inl ⟨first, rfl⟩
    | failure error =>
      cases right with
      | ok value' second => exact hfollows.elim
      | error reason' second =>
        cases reason' with
        | outOfFuel => exact hfollows.elim
        | failure error' =>
          obtain ⟨rfl, hmachines⟩ := hfollows
          exact .inr (.inr ⟨_, _, _, rfl, rfl, hmachines⟩)

theorem Follows.imp {machines : Machine → Machine → Prop} {values values' : α → β → Prop}
    (himp : ∀ value value', values value value' → values' value value')
    {left : EStateM.Result Interrupt Machine α} {right : EStateM.Result Interrupt Machine β}
    (hfollows : Follows machines values left right) : Follows machines values' left right := by
  obtain ⟨first, rfl⟩ | ⟨value, value', first, second, rfl, rfl, hvalue, hmachines⟩ |
    ⟨failure, first, second, rfl, rfl, hmachines⟩ := hfollows.cases
  · trivial
  · exact ⟨himp value value' hvalue, hmachines⟩
  · exact ⟨rfl, hmachines⟩

/-- Two computations keep the relation. -/
def Matches (simulation : Simulation limit) (values : α → β → Prop) (left : Eval α)
    (right : Eval β) : Prop :=
  ∀ first second, simulation.related first second →
    Follows simulation.related values (left first) (right second)

/-- Control leaves two statements in the same way. -/
inductive Outcomes (simulation : Simulation limit) : Outcome → Outcome → Prop where
  | normal : Outcomes simulation .normal .normal
  | returned {value value' : Value}
      (hvalue : simulation.law.Corresponds simulation.pairing value value') :
      Outcomes simulation (.returned value) (.returned value')
  | broke : Outcomes simulation .broke .broke
  | continued : Outcomes simulation .continued .continued

variable {simulation : Simulation limit}

theorem corresponds_of_type {value : Value} (htype : value.type ≠ .function) :
    simulation.law.Corresponds simulation.pairing value value :=
  ⟨.plain htype, simulation.law.good_of_type htype, simulation.law.good_of_type htype⟩

theorem Outcomes.corresponds_value {outcome outcome' : Outcome}
    (houtcome : simulation.Outcomes outcome outcome') :
    simulation.law.Corresponds simulation.pairing outcome.value outcome'.value := by
  cases houtcome with
  | returned hvalue => exact hvalue
  | normal | broke | continued => exact corresponds_of_type nofun

theorem matches_pure {values : α → β → Prop} {value : α} {value' : β}
    (hvalue : values value value') : simulation.Matches values (pure value) (pure value') :=
  fun _ _ hrelated => ⟨hvalue, hrelated⟩

theorem matches_raise {values : α → β → Prop} (span : Span) (fault : RuntimeFault) :
    simulation.Matches values (Eval.raise span fault) (Eval.raise span fault) :=
  fun _ _ hrelated => ⟨rfl, hrelated⟩

theorem matches_ofExcept (span : Span) {outcome : Except RuntimeFault Value}
    (htype : ∀ value, outcome = .ok value → value.type ≠ .function) :
    simulation.Matches (simulation.law.Corresponds simulation.pairing)
      (Eval.ofExcept span outcome) (Eval.ofExcept span outcome) := by
  cases outcome with
  | ok value => exact matches_pure (corresponds_of_type (htype value rfl))
  | error fault => exact matches_raise span fault

theorem Matches.bind {values : α → β → Prop} {results : γ → δ → Prop} {left : Eval α}
    {right : Eval β} {next : α → Eval γ} {next' : β → Eval δ}
    (hstep : simulation.Matches values left right)
    (hnext : ∀ value value', values value value' →
      simulation.Matches results (next value) (next' value')) :
    simulation.Matches results (left >>= next) (right >>= next') := by
  intro first second hrelated
  obtain ⟨middle, hleft⟩ | ⟨value, value', middle, middle', hleft, hright, hvalue, hmiddle⟩ |
    ⟨error, middle, middle', hleft, hright, hmiddle⟩ := (hstep first second hrelated).cases
  · rw [bind_of_eq_error hleft]
    trivial
  · rw [bind_of_eq_ok hleft, bind_of_eq_ok hright]
    exact hnext value value' hvalue middle middle' hmiddle
  · rw [bind_of_eq_error hleft, bind_of_eq_error hright]
    exact ⟨rfl, hmiddle⟩

/-- A name is found in both machines or in none. -/
theorem get_cases {first second : Machine} (name : String)
    (hrelated : simulation.related first second) :
    (first.store.get? first.scope name = none ∧ second.store.get? second.scope name = none) ∨
      ∃ value value', first.store.get? first.scope name = some value ∧
        second.store.get? second.scope name = some value' ∧
        simulation.law.Corresponds simulation.pairing value value' := by
  have hget := simulation.get name hrelated
  obtain ⟨hfirst, hsecond⟩ := simulation.ready hrelated
  generalize hleft : first.store.get? first.scope name = left at hget
  generalize hright : second.store.get? second.scope name = right at hget
  cases hget with
  | none => exact .inl ⟨rfl, rfl⟩
  | some halike =>
    exact .inr ⟨_, _, rfl, rfl, halike, simulation.law.good_of_get hfirst hleft,
      simulation.law.good_of_get hsecond hright⟩

theorem matches_find? (name : String) :
    simulation.Matches (Option.Rel (simulation.law.Corresponds simulation.pairing))
      (Eval.find? name) (Eval.find? name) := by
  intro first second hrelated
  rw [Eval.find?_apply, Eval.find?_apply]
  refine ⟨?_, hrelated⟩
  obtain ⟨hleft, hright⟩ | ⟨value, value', hleft, hright, hvalue⟩ := get_cases name hrelated
  · rw [hleft, hright]
    exact .none
  · rw [hleft, hright]
    exact .some hvalue

theorem follows_ended {machines : Machine → Machine → Prop} (result : Except RuntimeError Unit)
    {first second : Machine} (hmachines : machines first second) :
    Follows machines (fun _ _ => True) (Eval.ended result first) (Eval.ended result second) := by
  cases result with
  | ok => exact ⟨trivial, hmachines⟩
  | error error => exact ⟨rfl, hmachines⟩

theorem matches_write (span : Span) (text : String) :
    simulation.Matches (fun _ _ => True) (Eval.write span text) (Eval.write span text) := by
  intro first second hrelated
  obtain ⟨hresult, hnext⟩ := simulation.write text hrelated
  rw [Eval.write_apply, Eval.write_apply, hresult]
  exact follows_ended _ hnext

theorem matches_flush (span : Span) :
    simulation.Matches (fun _ _ => True) (Eval.flush span) (Eval.flush span) := by
  intro first second hrelated
  obtain ⟨hresult, hnext⟩ := simulation.flush hrelated
  rw [Eval.flush_apply, Eval.flush_apply, hresult]
  exact follows_ended _ hnext

theorem matches_readLine (span : Span) :
    simulation.Matches (simulation.law.Corresponds simulation.pairing) (Eval.readLine span)
      (Eval.readLine span) := by
  intro first second hrelated
  rw [Eval.readLine_apply, Eval.readLine_apply, ← simulation.input_eq hrelated]
  cases hline : first.input.readLine? with
  | none => exact ⟨rfl, hrelated⟩
  | some read =>
    obtain ⟨line, input⟩ := read
    have hnext := simulation.input input hrelated
    cases htext : line.text? with
    | none =>
      simp only [htext]
      exact ⟨rfl, hnext⟩
    | some text =>
      simp only [htext]
      exact ⟨corresponds_of_type nofun, hnext⟩

theorem matches_readInput (span : Span) (prompt : Option String) :
    simulation.Matches (simulation.law.Corresponds simulation.pairing)
      (Eval.readInput span prompt) (Eval.readInput span prompt) := by
  have hread : simulation.Matches (simulation.law.Corresponds simulation.pairing)
      (Eval.flush span >>= fun _ => Eval.readLine span)
      (Eval.flush span >>= fun _ => Eval.readLine span) :=
    (matches_flush span).bind fun _ _ _ => matches_readLine span
  cases prompt with
  | none => exact hread
  | some text => exact (matches_write span text).bind fun _ _ _ => hread

theorem display_eq_of_forall₂ {values values' : List Value}
    (hvalues : List.Forall₂ (simulation.law.Corresponds simulation.pairing) values values') :
    values.map Value.display = values'.map Value.display := by
  induction hvalues with
  | nil => rfl
  | cons hvalue _ ih => rw [List.map_cons, List.map_cons, hvalue.alike.display_eq, ih]

theorem matches_printValues (span : Span) {values values' : List Value}
    (hvalues : List.Forall₂ (simulation.law.Corresponds simulation.pairing) values values') :
    simulation.Matches (fun _ _ => True) (Eval.printValues span values)
      (Eval.printValues span values') := by
  rw [Eval.printValues, Eval.printValues, display_eq_of_forall₂ hvalues]
  exact (matches_write span _).bind fun _ _ _ => matches_write span _

theorem matches_define (name : String) {value value' : Value}
    (hvalue : simulation.law.Corresponds simulation.pairing value value') :
    simulation.Matches (fun _ _ => True) (Eval.define name value) (Eval.define name value') :=
  fun _ _ hrelated => ⟨trivial, simulation.define name hrelated hvalue⟩

theorem matches_updateName (span : Span) (name : String) (op : UpdateOp) :
    simulation.Matches (fun _ _ => True) (Eval.updateName span name op)
      (Eval.updateName span name op) := by
  intro first second hrelated
  rw [Eval.updateName, bind_of_eq_ok (Eval.find?_apply name first),
    bind_of_eq_ok (Eval.find?_apply name second)]
  obtain ⟨hleft, hright⟩ | ⟨current, current', hleft, hright, hcurrent⟩ := get_cases name hrelated
  · rw [hleft, hright]
    exact ⟨rfl, hrelated⟩
  · have happly := op.apply_eq_of_alike name hcurrent.alike
    rw [hleft, hright]
    dsimp only
    rw [happly]
    cases hvalue : op.apply name current' with
    | ok value =>
      exact ⟨trivial, simulation.update hrelated hleft hright (happly.trans hvalue) hvalue⟩
    | error fault => exact ⟨rfl, hrelated⟩

/-- The two functions that a name stands for. -/
theorem matches_callee (span : Span) (name : String) (given : Nat) :
    simulation.Matches
      (fun closure closure' =>
        simulation.law.Corresponds simulation.pairing (.function closure) (.function closure'))
      (Eval.callee span name given) (Eval.callee span name given) := by
  refine (matches_find? name).bind ?_
  intro found found' hfound
  cases hfound with
  | none => exact matches_raise span _
  | @some value value' hvalue =>
    obtain ⟨halike, hfirst, hsecond⟩ := hvalue
    cases halike with
    | plain htype =>
      cases value with
      | function => exact absurd rfl htype
      | unit | bool | int | float | str => exact matches_raise span _
    | function hclosure =>
      dsimp only
      rw [hclosure.params]
      split
      · exact matches_pure ⟨.function hclosure, hfirst, hsecond⟩
      · exact matches_raise span _

section

-- How the parts of an expression or a statement are evaluated and run on either side.
variable {evaluate evaluate' : Expr → Eval Value} {run run' : List Stmt → Eval Outcome}
  (hevaluate : ∀ expression, simulation.Matches
    (simulation.law.Corresponds simulation.pairing) (evaluate expression) (evaluate' expression))
  (hrun : ∀ body, simulation.Matches simulation.Outcomes (run body) (run' body))
  (hobeys : ∀ body, simulation.law.Obeys .write simulation.law.GoodOutcome (run body))
  (hobeys' : ∀ body, simulation.law.Obeys .write simulation.law.GoodOutcome (run' body))

include hevaluate in
theorem matches_evaluateAll (expressions : List Expr) :
    simulation.Matches (List.Forall₂ (simulation.law.Corresponds simulation.pairing))
      (Eval.evaluateAll evaluate expressions) (Eval.evaluateAll evaluate' expressions) := by
  induction expressions with
  | nil => exact matches_pure .nil
  | cons first rest ih =>
    refine (hevaluate first).bind ?_
    intro value value' hvalue
    refine ih.bind ?_
    intro values values' hvalues
    exact matches_pure (.cons hvalue hvalues)

theorem matches_runBody {execute execute' : Stmt → Eval Outcome}
    (hexecute : ∀ statement, simulation.Matches simulation.Outcomes (execute statement)
      (execute' statement)) (body : List Stmt) :
    simulation.Matches simulation.Outcomes (Eval.runBody execute body)
      (Eval.runBody execute' body) := by
  induction body with
  | nil => exact matches_pure .normal
  | cons first rest ih =>
    refine (hexecute first).bind ?_
    intro outcome outcome' houtcome
    cases houtcome with
    | normal => exact ih
    | returned hvalue => exact matches_pure (.returned hvalue)
    | broke => exact matches_pure .broke
    | continued => exact matches_pure .continued

include hevaluate hrun in
theorem matches_runBranches (otherwise : List Stmt) (branches : List (Expr × List Stmt)) :
    simulation.Matches simulation.Outcomes (Eval.runBranches evaluate run otherwise branches)
      (Eval.runBranches evaluate' run' otherwise branches) := by
  induction branches with
  | nil => exact hrun otherwise
  | cons branch rest ih =>
    obtain ⟨condition, body⟩ := branch
    refine (hevaluate condition).bind ?_
    intro value value' hvalue
    rw [hvalue.alike.isTruthy_eq]
    split
    · exact hrun body
    · exact ih

theorem matches_runLoop {condition condition' : Eval Value} {body body' : Eval Outcome}
    (hcondition : simulation.Matches (simulation.law.Corresponds simulation.pairing) condition
      condition') (hbody : simulation.Matches simulation.Outcomes body body') {bound bound' : Nat}
    (hbound : bound ≤ bound') :
    simulation.Matches simulation.Outcomes (Eval.runLoop condition body bound)
      (Eval.runLoop condition' body' bound') := by
  induction bound generalizing bound' with
  | zero => exact fun _ _ _ => trivial
  | succ bound ih =>
    cases bound' with
    | zero => omega
    | succ bound' =>
      refine hcondition.bind ?_
      intro value value' hvalue
      rw [hvalue.alike.isTruthy_eq]
      split
      · refine hbody.bind ?_
        intro outcome outcome' houtcome
        cases houtcome with
        | normal | continued => exact ih (Nat.le_of_succ_le_succ hbound)
        | broke => exact matches_pure .normal
        | returned hvalue => exact matches_pure (.returned hvalue)
      · exact matches_pure .normal

include hrun in
theorem matches_runLoopBody (body : LoopBody) :
    simulation.Matches simulation.Outcomes (Eval.runLoopBody run body)
      (Eval.runLoopBody run' body) := by
  cases body with
  | breakOnly => exact matches_pure .broke
  | continueOnly => exact matches_pure .continued
  | block body => exact hrun body

theorem matches_rescue {body body' handler handler' : Eval Outcome}
    (hbody : simulation.Matches simulation.Outcomes body body')
    (hhandler : simulation.Matches simulation.Outcomes handler handler') :
    simulation.Matches simulation.Outcomes (Eval.rescue body handler)
      (Eval.rescue body' handler') := by
  intro first second hrelated
  obtain ⟨next, hleft⟩ | ⟨outcome, outcome', next, next', hleft, hright, houtcome, hnext⟩ |
    ⟨failure, next, next', hleft, hright, hnext⟩ := (hbody first second hrelated).cases
  · rw [Eval.rescue_of_eq_error hleft]
    trivial
  · rw [Eval.rescue_of_eq_ok hleft, Eval.rescue_of_eq_ok hright]
    exact ⟨houtcome, hnext⟩
  · rw [Eval.rescue_of_eq_error hleft, Eval.rescue_of_eq_error hright]
    split
    · exact hhandler next next' hnext
    · exact ⟨rfl, hnext⟩

include hrun hobeys hobeys' in
/-- Two calls of functions that are alike, from machines that need not be related: it is
    enough that those are in which the bodies begin. -/
theorem follows_enter {machines : Machine → Machine → Prop} (span : Span) (name : String)
    {closure closure' : Closure} {args args' : List Value} {first second : Machine}
    (hclosure : closure.Alike simulation.pairing closure') (hdepthEq : first.depth = second.depth)
    (hstay : machines first second)
    (hinside : first.depth < limit →
      simulation.related (first.entered closure args) (second.entered closure' args') ∧
      ∀ next next', simulation.law.change .write (first.entered closure args) next →
        simulation.law.change .write (second.entered closure' args') next' →
        simulation.related next next' →
        machines (next.left first.scope) (next'.left second.scope)) :
    Follows machines (simulation.law.Corresponds simulation.pairing)
      (Eval.enter limit run span name closure args first)
      (Eval.enter limit run' span name closure' args' second) := by
  by_cases hdepth : first.depth < limit
  · have hdepth' : second.depth < limit := hdepthEq ▸ hdepth
    obtain ⟨hentered, hleave⟩ := hinside hdepth
    obtain ⟨hready, hready'⟩ := simulation.ready hentered
    have hbody : closure'.body = closure.body := hclosure.body.symm
    obtain ⟨next, hleft⟩ | ⟨outcome, outcome', next, next', hleft, hright, houtcome, hnext⟩ |
      ⟨error, next, next', hleft, hright, hnext⟩ := (hrun closure.body _ _ hentered).cases
    · rw [Eval.enter_of_eq_error hdepth hleft]
      trivial
    · obtain ⟨hchange, _, _⟩ := (hobeys closure.body).ready_of_eq_ok hready hleft
      obtain ⟨hchange', _, _⟩ := (hobeys' closure.body).ready_of_eq_ok hready' hright
      rw [Eval.enter_of_eq_ok hdepth hleft, Eval.enter_of_eq_ok hdepth' (hbody ▸ hright)]
      exact ⟨houtcome.corresponds_value, hleave next next' hchange hchange' hnext⟩
    · obtain ⟨hchange, _⟩ := (hobeys closure.body).ready_of_eq_error hready hleft
      obtain ⟨hchange', _⟩ := (hobeys' closure.body).ready_of_eq_error hready' hright
      rw [Eval.enter_of_eq_error hdepth hleft, Eval.enter_of_eq_error hdepth' (hbody ▸ hright)]
      exact ⟨rfl, hleave next next' hchange hchange' hnext⟩
  · have hlimit := Nat.not_lt.mp hdepth
    rw [Eval.enter_of_limit_le hlimit, Eval.enter_of_limit_le (hdepthEq ▸ hlimit)]
    exact ⟨rfl, hstay⟩

include hrun hobeys hobeys' in
theorem matches_enter (span : Span) (name : String) {closure closure' : Closure}
    {args args' : List Value}
    (hclosure : simulation.law.Corresponds simulation.pairing (.function closure)
      (.function closure'))
    (hargs : List.Forall₂ (simulation.law.Corresponds simulation.pairing) args args') :
    simulation.Matches (simulation.law.Corresponds simulation.pairing)
      (Eval.enter limit run span name closure args)
      (Eval.enter limit run' span name closure' args') := by
  intro first second hrelated
  refine follows_enter hrun hobeys hobeys' span name hclosure.alike.closure
    (simulation.depth_eq hrelated) hrelated ?_
  intro hdepth
  exact simulation.enter hrelated hdepth hclosure hargs

include hevaluate hrun hobeys hobeys' in
theorem matches_call (span : Span) (name : String) (args : List Expr) :
    simulation.Matches (simulation.law.Corresponds simulation.pairing)
      (Eval.call limit evaluate run span name args)
      (Eval.call limit evaluate' run' span name args) := by
  refine (matches_callee span name args.length).bind ?_
  intro closure closure' hclosure
  refine (matches_evaluateAll hevaluate args).bind ?_
  intro values values' hvalues
  exact matches_enter hrun hobeys hobeys' span name hclosure hvalues

include hevaluate hrun hobeys hobeys' in
theorem matches_evaluateWith (expression : Expr) :
    simulation.Matches (simulation.law.Corresponds simulation.pairing)
      (Eval.evaluateWith limit evaluate run expression)
      (Eval.evaluateWith limit evaluate' run' expression) := by
  cases expression with
  | literal value =>
    refine matches_pure (corresponds_of_type ?_)
    cases value <;> nofun
  | name name span =>
    refine (matches_find? name).bind ?_
    intro found found' hfound
    cases hfound with
    | none => exact matches_raise span _
    | some hvalue => exact matches_pure hvalue
  | unary op operand span =>
    refine (hevaluate operand).bind ?_
    intro value value' hvalue
    rw [op.apply_eq_of_alike hvalue.alike]
    exact matches_ofExcept span fun _ happly => UnaryOp.apply_type happly
  | binary op left right span =>
    refine (hevaluate left).bind ?_
    intro first first' hfirst
    refine (hevaluate right).bind ?_
    intro second second' hsecond
    rw [op.apply_eq_of_alike hfirst.alike hsecond.alike]
    exact matches_ofExcept span fun _ happly => BinaryOp.apply_type happly
  | group inner => exact hevaluate inner
  | print args span =>
    refine (matches_evaluateAll hevaluate args).bind ?_
    intro values values' hvalues
    refine (matches_printValues span hvalues).bind ?_
    intro _ _ _
    exact matches_pure (corresponds_of_type nofun)
  | input prompt span => exact matches_readInput span prompt
  | call name args span => exact matches_call hevaluate hrun hobeys hobeys' span name args

include hevaluate hrun hobeys hobeys' in
theorem matches_executeWith {rounds rounds' : Nat} (hrounds : rounds ≤ rounds')
    (statement : Stmt) :
    simulation.Matches simulation.Outcomes (Eval.executeWith limit rounds evaluate run statement)
      (Eval.executeWith limit rounds' evaluate' run' statement) := by
  cases statement with
  | pass => exact matches_pure .normal
  | breakLoop => exact matches_pure .broke
  | continueLoop => exact matches_pure .continued
  | assign target value =>
    refine (hevaluate value).bind ?_
    intro value value' hvalue
    refine (matches_define target hvalue).bind ?_
    intro _ _ _
    exact matches_pure .normal
  | returnWith value =>
    cases value with
    | none => exact matches_pure (.returned (corresponds_of_type nofun))
    | some value =>
      refine (hevaluate value).bind ?_
      intro value value' hvalue
      exact matches_pure (.returned hvalue)
  | loop condition body =>
    exact matches_runLoop (hevaluate condition) (matches_runLoopBody hrun body) hrounds
  | branch condition body elifs otherwise =>
    exact matches_runBranches hevaluate hrun _ ((condition, body) :: elifs)
  | guarded body handler => exact matches_rescue (hrun body) (hrun handler)
  | print args span =>
    refine (matches_evaluateAll hevaluate args).bind ?_
    intro values values' hvalues
    refine (matches_printValues span hvalues).bind ?_
    intro _ _ _
    exact matches_pure .normal
  | input prompt span =>
    refine (matches_readInput span prompt).bind ?_
    intro _ _ _
    exact matches_pure .normal
  | call name args span =>
    refine (matches_call hevaluate hrun hobeys hobeys' span name args).bind ?_
    intro _ _ _
    exact matches_pure .normal
  | update name op span =>
    refine (matches_updateName span name op).bind ?_
    intro _ _ _
    exact matches_pure .normal

end

/-- Every run of one machine is followed by the run of the other on at least as much fuel:
    by induction on the fuel of the first. -/
theorem matches_run (simulation : Simulation limit) {fuel fuel' : Nat} (hfuel : fuel ≤ fuel') :
    (∀ expression, simulation.Matches (simulation.law.Corresponds simulation.pairing)
        (Eval.evaluate limit fuel expression) (Eval.evaluate limit fuel' expression)) ∧
      ∀ statement, simulation.Matches simulation.Outcomes (Eval.execute limit fuel statement)
        (Eval.execute limit fuel' statement) := by
  induction fuel generalizing fuel' with
  | zero =>
    constructor
    · intro expression _ _ _
      rw [Eval.evaluate_zero]
      trivial
    · intro statement _ _ _
      rw [Eval.execute_zero]
      trivial
  | succ fuel ih =>
    cases fuel' with
    | zero => omega
    | succ fuel' =>
      have hfuel := Nat.le_of_succ_le_succ hfuel
      obtain ⟨hevaluate, hexecute⟩ := ih hfuel
      have hrun := matches_runBody hexecute
      have hobeys := simulation.law.obeys_executeBody fuel
      have hobeys' := simulation.law.obeys_executeBody fuel'
      constructor
      · intro expression
        rw [Eval.evaluate_succ, Eval.evaluate_succ]
        exact matches_evaluateWith hevaluate hrun hobeys hobeys' expression
      · intro statement
        rw [Eval.execute_succ, Eval.execute_succ]
        exact matches_executeWith hevaluate hrun hobeys hobeys' hfuel statement

theorem matches_evaluate (simulation : Simulation limit) {fuel fuel' : Nat}
    (hfuel : fuel ≤ fuel') (expression : Expr) :
    simulation.Matches (simulation.law.Corresponds simulation.pairing)
      (Eval.evaluate limit fuel expression) (Eval.evaluate limit fuel' expression) :=
  (simulation.matches_run hfuel).1 expression

theorem matches_executeBody (simulation : Simulation limit) {fuel fuel' : Nat}
    (hfuel : fuel ≤ fuel') (body : List Stmt) :
    simulation.Matches simulation.Outcomes (Eval.executeBody limit fuel body)
      (Eval.executeBody limit fuel' body) :=
  matches_runBody (simulation.matches_run hfuel).2 body

end Simulation
end KawaiiLang
