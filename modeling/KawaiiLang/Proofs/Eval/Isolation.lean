import Mathlib
import KawaiiLang.Proofs.Eval.Fuel
import KawaiiLang.Proofs.Eval.Reachable

namespace KawaiiLang

namespace Machine

/-- Two machines agree on the functions in the global frame, on how deep calls are nested,
    and on the input and the output. Nothing is said about other frames. -/
structure Agree (pairing : Pairing) (first second : Machine) : Prop where
  global : ∀ name, Option.Rel (Value.Alike pairing) (first.store.own? globals name)
    (second.store.own? globals name)
  depth : first.depth = second.depth
  input : first.input = second.input
  output : first.output = second.output

theorem Agree.flip {pairing : Pairing} {first second : Machine}
    (hagree : first.Agree pairing second) : second.Agree pairing.flip first := by
  refine ⟨?_, hagree.depth.symm, hagree.input.symm, hagree.output.symm⟩
  intro name
  have hglobal := hagree.global name
  generalize first.store.own? globals name = value at hglobal
  generalize second.store.own? globals name = value' at hglobal
  cases hglobal with
  | none => exact .none
  | some halike => exact .some halike.flip

/-- Two machines that look the same from the inside of a function: they agree, and the
    current frames bind the same names to the same values. -/
structure Twins (pairing : Pairing) (first second : Machine) : Prop
    extends Agree pairing first second where
  scoped_first : first.WellScoped
  scoped_second : second.WellScoped
  own : ∀ name, Option.Rel (Value.Alike pairing) (first.store.own? first.scope name)
    (second.store.own? second.scope name)

variable {pairing : Pairing} {first second : Machine}

theorem Twins.get (htwins : first.Twins pairing second) (name : String) :
    Option.Rel (Value.Alike pairing) (first.store.get? first.scope name)
      (second.store.get? second.scope name) := by
  rw [htwins.scoped_first.get?_eq, htwins.scoped_second.get?_eq]
  have hown := htwins.own name
  generalize first.store.own? first.scope name = value at hown
  generalize second.store.own? second.scope name = value' at hown
  cases hown with
  | none => exact htwins.global name
  | some halike => exact .some halike

theorem WellScoped.own?_define_scope {machine : Machine} (hscoped : machine.WellScoped)
    (name key : String) (value : Value) :
    (machine.store.define machine.scope name value).own? machine.scope key =
      if key = name then some value else machine.store.own? machine.scope key := by
  obtain ⟨frame, hframe, _⟩ := hscoped.scope_enclosing
  rw [Store.own?_define _ _ _ _ _ _ (WellScoped.lt_size_of_frame hframe)]
  simp only [true_and]

theorem WellScoped.own?_define_globals {machine : Machine} (hscoped : machine.WellScoped)
    (name key : String) (value : Value) :
    (machine.store.define machine.scope name value).own? globals key =
      machine.store.own? globals key := by
  obtain ⟨frame, hframe, _⟩ := hscoped.scope_enclosing
  have hother := Nat.ne_of_lt hscoped.globals_lt_scope
  rw [Store.own?_define _ _ _ _ _ _ (WellScoped.lt_size_of_frame hframe),
    if_neg (fun hboth => hother hboth.1)]

theorem Twins.define (htwins : first.Twins pairing second) (name : String)
    {value value' : Value} (halike : value.Alike pairing value') (hvalue : value.Rooted)
    (hvalue' : value'.Rooted) :
    Twins pairing { first with store := first.store.define first.scope name value }
      { second with store := second.store.define second.scope name value' } where
  scoped_first := (htwins.scoped_first.writes_define name hvalue).wellScoped htwins.scoped_first
  scoped_second :=
    (htwins.scoped_second.writes_define name hvalue').wellScoped htwins.scoped_second
  depth := htwins.depth
  input := htwins.input
  output := htwins.output
  global key := by
    rw [htwins.scoped_first.own?_define_globals, htwins.scoped_second.own?_define_globals]
    exact htwins.global key
  own key := by
    rw [htwins.scoped_first.own?_define_scope, htwins.scoped_second.own?_define_scope]
    split
    · exact .some halike
    · exact htwins.own key

theorem WellScoped.own?_inner_globals {machine : Machine} (hscoped : machine.WellScoped)
    (frame : Frame) (name : String) :
    (machine.inner frame).store.own? globals name = machine.store.own? globals name := by
  obtain ⟨root, hroot, _⟩ := hscoped.global_root
  have hother : globals ≠ machine.store.nextFrame := Nat.ne_of_lt (lt_size_of_frame hroot)
  exact (Store.own?_push _ _ _ _).trans (if_neg hother)

theorem WellScoped.own?_entered_globals {machine : Machine} (hscoped : machine.WellScoped)
    (closure : Closure) (args : List Value) (name : String) :
    (machine.entered closure args).store.own? globals name = machine.store.own? globals name :=
  hscoped.own?_inner_globals (callFrame closure args) name

theorem own?_entered_scope (machine : Machine) (closure : Closure) (args : List Value)
    (name : String) :
    (machine.entered closure args).store.own? (machine.entered closure args).scope name =
      (callFrame closure args).bindings.find? name :=
  (Store.own?_push _ _ _ _).trans (if_pos rfl)

/-- Whatever the frames of two callers hold, the bodies of functions that are alike begin
    in twins if the arguments are alike. -/
theorem Agree.twins_entered {limit : Nat} (hagree : first.Agree pairing second)
    (hfirst : first.WellScoped) (hsecond : second.WellScoped) (hdepth : first.depth < limit)
    {closure closure' : Closure} {args args' : List Value}
    (hclosure : (scoping limit).Corresponds pairing (.function closure) (.function closure'))
    (hargs : List.Forall₂ ((scoping limit).Corresponds pairing) args args') :
    (first.entered closure args).Twins pairing (second.entered closure' args') where
  global name := by
    rw [hfirst.own?_entered_globals, hsecond.own?_entered_globals]
    exact hagree.global name
  depth := congrArg (· + 1) hagree.depth
  input := hagree.input
  output := hagree.output
  scoped_first :=
    ((scoping limit).enter hfirst hdepth hclosure.good_first (Law.good_of_forall₂ hargs).1).1
  scoped_second := by
    have hdepth : second.depth < limit := hagree.depth ▸ hdepth
    exact ((scoping limit).enter hsecond hdepth hclosure.good_second
      (Law.good_of_forall₂ hargs).2).1
  own name := by
    rw [own?_entered_scope, own?_entered_scope, callFrame, callFrame,
      hclosure.alike.closure.params]
    refine Bindings.find?_insertAll_rel (hargs.imp fun _ _ hvalue => hvalue.alike) _ ?_ name
    intro key
    exact .none

theorem Twins.withOutput (htwins : first.Twins pairing second) (output : Sink) :
    Twins pairing { first with output } { second with output } :=
  { htwins with
    scoped_first := ((scoping 0).output _ output).writes.wellScoped htwins.scoped_first
    scoped_second := ((scoping 0).output _ output).writes.wellScoped htwins.scoped_second
    output := rfl }

/-- Twins stay twins, as long as both do the same. -/
def twins (limit : Nat) (pairing : Pairing) : Simulation limit where
  law := scoping limit
  pairing := pairing
  related := Twins pairing
  ready htwins := ⟨htwins.scoped_first, htwins.scoped_second⟩
  depth_eq htwins := htwins.depth
  input_eq htwins := htwins.input
  get name htwins := htwins.get name
  input input htwins :=
    { htwins with
      scoped_first := ((scoping limit).input _ input).writes.wellScoped htwins.scoped_first
      scoped_second := ((scoping limit).input _ input).writes.wellScoped htwins.scoped_second
      input := rfl }
  write text htwins := by
    rw [htwins.output]
    exact ⟨rfl, htwins.withOutput _⟩
  flush htwins := by
    rw [htwins.output]
    exact ⟨rfl, htwins.withOutput _⟩
  define name htwins hvalue :=
    htwins.define name hvalue.alike hvalue.good_first hvalue.good_second
  update {first second name op current current' value} htwins hget hget' happly happly' := by
    obtain ⟨hcurrent, htype⟩ := UpdateOp.apply_type happly
    obtain ⟨hcurrent', _⟩ := UpdateOp.apply_type happly'
    have hvalue := (scoping limit).good_of_type htype
    rw [htwins.scoped_first.assign?_eq_define hget hcurrent,
      htwins.scoped_second.assign?_eq_define hget' hcurrent', Option.getD_some, Option.getD_some]
    exact htwins.define name (.plain htype) hvalue hvalue
  enter {first second closure closure' args args'} htwins hdepth hclosure hargs := by
    have hdepth' : second.depth < limit := htwins.depth ▸ hdepth
    obtain ⟨hgood, hgood'⟩ := Law.good_of_forall₂ hargs
    obtain ⟨_, hleave⟩ :=
      (scoping limit).enter htwins.scoped_first hdepth hclosure.good_first hgood
    obtain ⟨_, hleave'⟩ :=
      (scoping limit).enter htwins.scoped_second hdepth' hclosure.good_second hgood'
    refine ⟨htwins.twins_entered htwins.scoped_first htwins.scoped_second hdepth hclosure hargs, ?_⟩
    intro next next' hchange hchange' hnext
    -- The callers find their frames as they left them, so these are alike as before.
    have hreads : first.Reads _ := hleave next hchange
    have hreads' : second.Reads _ := hleave' next' hchange'
    refine ⟨⟨?_, ?_, hnext.input, hnext.output⟩, hreads.writes.wellScoped htwins.scoped_first,
      hreads'.writes.wellScoped htwins.scoped_second, ?_⟩
    · rw [hreads.store, hreads'.store]
      exact htwins.global
    · rw [hreads.depth, hreads'.depth]
      exact htwins.depth
    · rw [hreads.store, hreads'.store, hreads.scope, hreads'.scope]
      exact htwins.own

end Machine

namespace Eval

variable {α : Type} {limit : Nat} {pairing : Pairing} {first second : Machine}

/-- On enough fuel, a computation ends so. -/
def Settles (computation : Nat → Eval α) (machine : Machine) (result : Except RuntimeError α)
    (final : Machine) : Prop :=
  ∃ fuel, computation fuel machine = ended result final

/-- The same value or the same error. -/
def SameResult (pairing : Pairing) :
    Except RuntimeError Value → Except RuntimeError Value → Prop
  | .ok value, .ok value' => value.Alike pairing value'
  | .error error, .error error' => error = error'
  | _, _ => False

/-- A call means the same in two machines: the name stands for the same function, and the
    arguments have the same values and read and write the same. -/
structure SameCall (limit : Nat) (pairing : Pairing) (name : String) (args : List Expr)
    (first second : Machine) : Prop where
  callee : ∃ closure closure', first.store.get? first.scope name = some (.function closure) ∧
    second.store.get? second.scope name = some (.function closure') ∧
    closure.Alike pairing closure'
  arguments : ∃ values values' next next',
    Settles (fun fuel => evaluateAll (evaluate limit fuel) args) first (.ok values) next ∧
    Settles (fun fuel => evaluateAll (evaluate limit fuel) args) second (.ok values') next' ∧
    List.Forall₂ (Value.Alike pairing) values values' ∧
    next.input = next'.input ∧ next.output = next'.output

/-- On enough fuel for the arguments, the two calls do the same, whatever else the callers'
    machines hold. -/
theorem follows_call (hfirst : first.WellScoped) (hsecond : second.WellScoped)
    (hagree : first.Agree pairing second) {name : String} {args : List Expr}
    {closure closure' : Closure} {values values' : List Value} {next next' : Machine} {fuel : Nat}
    (hget : first.store.get? first.scope name = some (.function closure))
    (hget' : second.store.get? second.scope name = some (.function closure'))
    (hclosure : closure.Alike pairing closure')
    (hargs : evaluateAll (evaluate limit fuel) args first = .ok values next)
    (hargs' : evaluateAll (evaluate limit fuel) args second = .ok values' next')
    (hvalues : List.Forall₂ (Value.Alike pairing) values values')
    (hinput : next.input = next'.input) (houtput : next.output = next'.output) (span : Span) :
    Simulation.Follows
      (fun final final' => final.input = final'.input ∧ final.output = final'.output)
      (fun value value' => value.Alike pairing value')
      (evaluate limit (fuel + 1) (.call name args span) first)
      (evaluate limit (fuel + 1) (.call name args span) second) := by
  rw [evaluate_succ, evaluateWith]
  by_cases harity : closure.params.length = args.length
  · have harity' : closure'.params.length = args.length := hclosure.params ▸ harity
    have hcallee := (callee_of_get hget span args.length).trans (if_pos harity)
    have hcallee' := (callee_of_get hget' span args.length).trans (if_pos harity')
    rw [call, bind_of_eq_ok hcallee, bind_of_eq_ok hargs, bind_of_eq_ok hcallee',
      bind_of_eq_ok hargs']
    have hobeys := Law.obeys_evaluateAll ((Machine.scoping limit).obeys_evaluate fuel) args
    obtain ⟨hreads, hnext, hgood⟩ := hobeys.ready_of_eq_ok hfirst hargs
    obtain ⟨hreads', hnext', hgood'⟩ := hobeys.ready_of_eq_ok hsecond hargs'
    have hagree : next.Agree pairing next' := by
      refine ⟨?_, ?_, hinput, houtput⟩
      · rw [hreads.store, hreads'.store]
        exact hagree.global
      · rw [hreads.depth, hreads'.depth]
        exact hagree.depth
    have hfunction : (Machine.scoping limit).Corresponds pairing (.function closure)
        (.function closure') :=
      ⟨.function hclosure, hfirst.rooted_of_get hget, hsecond.rooted_of_get hget'⟩
    have hcorrespond := Law.corresponds_of_forall₂ hvalues hgood hgood'
    have hrun := (Machine.twins limit pairing).matches_executeBody (Nat.le_refl fuel)
    have hbody := (Machine.scoping limit).obeys_executeBody fuel
    refine Simulation.Follows.imp (fun _ _ hvalue => hvalue.alike)
      (Simulation.follows_enter hrun hbody hbody span name hclosure hagree.depth
        ⟨hinput, houtput⟩ ?_)
    intro hdepth
    refine ⟨hagree.twins_entered hnext hnext' hdepth hfunction hcorrespond, ?_⟩
    intro final final' _ _ htwins
    exact ⟨htwins.input, htwins.output⟩
  · have harity' : ¬ closure'.params.length = args.length := hclosure.params ▸ harity
    have hcallee := (callee_of_get hget span args.length).trans (if_neg harity)
    have hcallee' := (callee_of_get hget' span args.length).trans (if_neg harity')
    rw [call, bind_of_eq_error hcallee, bind_of_eq_error hcallee']
    refine ⟨?_, hagree.input, hagree.output⟩
    rw [hclosure.params]

theorem exists_ended_of_follows {machines : Machine → Machine → Prop}
    {result : Except RuntimeError Value} {final : Machine}
    {right : EStateM.Result Interrupt Machine Value}
    (hfollows : Simulation.Follows machines (fun value value' => value.Alike pairing value')
      (ended result final) right) :
    ∃ result' final', right = ended result' final' ∧ SameResult pairing result result' ∧
      machines final final' := by
  cases result with
  | ok value =>
    obtain ⟨_, hleft⟩ | ⟨_, value', _, final', hleft, rfl, hvalue, hmachines⟩ |
      ⟨_, _, _, hleft, _⟩ := hfollows.cases
    · cases hleft
    · cases hleft
      exact ⟨.ok value', final', rfl, hvalue, hmachines⟩
    · cases hleft
  | error error =>
    obtain ⟨_, hleft⟩ | ⟨_, _, _, _, hleft, _⟩ | ⟨_, _, final', hleft, rfl, hmachines⟩ :=
      hfollows.cases
    · cases hleft
    · cases hleft
    · cases hleft
      exact ⟨.error error, final', rfl, rfl, hmachines⟩

/-- A call that ends in one machine ends in the same way in the other. -/
theorem SameCall.settles {name : String} {args : List Expr} {span : Span}
    (hcall : SameCall limit pairing name args first second) (hfirst : first.WellScoped)
    (hsecond : second.WellScoped) (hagree : first.Agree pairing second)
    {result : Except RuntimeError Value} {final : Machine}
    (hsettles : Settles (fun fuel => evaluate limit fuel (.call name args span)) first result
      final) :
    ∃ result' final',
      Settles (fun fuel => evaluate limit fuel (.call name args span)) second result' final' ∧
      SameResult pairing result result' ∧ final.input = final'.input ∧
      final.output = final'.output := by
  obtain ⟨closure, closure', hget, hget', hclosure⟩ := hcall.callee
  obtain ⟨values, values', next, next', ⟨less, hargs⟩, ⟨more, hargs'⟩, hvalues, hinput, houtput⟩ :=
    hcall.arguments
  obtain ⟨fuel, hresult⟩ := hsettles
  dsimp only at hargs hargs' hresult
  -- The arguments may take more fuel in one machine than in the other.
  generalize henough : max fuel (max less more) = enough
  have hless : less ≤ enough := by omega
  have hmore : more ≤ enough := by omega
  have hfuel : fuel ≤ enough + 1 := by omega
  have hargs : evaluateAll (evaluate limit enough) args first = .ok values next :=
    (evaluateAll_of_le hless (hargs ▸ finished_ended _ _)).trans hargs
  have hargs' : evaluateAll (evaluate limit enough) args second = .ok values' next' :=
    (evaluateAll_of_le hmore (hargs' ▸ finished_ended _ _)).trans hargs'
  have hresult : evaluate limit (enough + 1) (.call name args span) first = ended result final :=
    (evaluate_of_le hfuel (hresult ▸ finished_ended _ _)).trans hresult
  have hfollows := follows_call hfirst hsecond hagree hget hget' hclosure hargs hargs' hvalues
    hinput houtput span
  rw [hresult] at hfollows
  obtain ⟨result', final', hresult', hsame, hstreams⟩ := exists_ended_of_follows hfollows
  exact ⟨result', final', ⟨enough + 1, hresult'⟩, hsame, hstreams⟩

theorem SameResult.flip {result result' : Except RuntimeError Value}
    (hsame : SameResult pairing.flip result' result) : SameResult pairing result result' := by
  cases result with
  | ok value =>
    cases result' with
    | ok value' => exact Value.Alike.flip hsame
    | error error' => exact hsame.elim
  | error error =>
    cases result' with
    | ok value' => exact hsame.elim
    | error error' => exact Eq.symm hsame

theorem SameCall.flip {name : String} {args : List Expr}
    (hcall : SameCall limit pairing name args first second) :
    SameCall limit pairing.flip name args second first := by
  obtain ⟨closure, closure', hget, hget', hclosure⟩ := hcall.callee
  obtain ⟨values, values', next, next', hargs, hargs', hvalues, hinput, houtput⟩ := hcall.arguments
  have hflip : closure'.Alike pairing.flip closure :=
    (Value.Alike.function hclosure).flip.closure
  refine ⟨⟨closure', closure, hget', hget, hflip⟩, values', values, next', next, hargs', hargs, ?_,
    hinput.symm, houtput.symm⟩
  exact hvalues.flip.imp fun _ _ halike => halike.flip

/-- A call is isolated from its caller. In any two machines that sessions can come to and
    that agree on the global functions, the call depth, the input and the output, a call
    that means the same in both ends in the one just if it ends in the other, and then with
    the same result, having read and written the same, whatever the frames of the callers
    and all other frames hold. -/
theorem call_isolated {name : String} {args : List Expr} (span : Span)
    (hfirst : first.Reachable limit) (hsecond : second.Reachable limit)
    (hagree : first.Agree pairing second)
    (hcall : SameCall limit pairing name args first second) :
    (∀ result final,
      Settles (fun fuel => evaluate limit fuel (.call name args span)) first result final →
      ∃ result' final',
        Settles (fun fuel => evaluate limit fuel (.call name args span)) second result' final' ∧
        SameResult pairing result result' ∧ final.input = final'.input ∧
        final.output = final'.output) ∧
      ∀ result' final',
        Settles (fun fuel => evaluate limit fuel (.call name args span)) second result' final' →
        ∃ result final,
          Settles (fun fuel => evaluate limit fuel (.call name args span)) first result final ∧
          SameResult pairing result result' ∧ final.input = final'.input ∧
          final.output = final'.output := by
  constructor
  · intro result final hsettles
    exact hcall.settles hfirst.wellScoped hsecond.wellScoped hagree hsettles
  · intro result' final' hsettles
    obtain ⟨result, final, hsettles, hsame, hinput, houtput⟩ :=
      hcall.flip.settles hsecond.wellScoped hfirst.wellScoped hagree.flip hsettles
    exact ⟨result, final, hsettles, hsame.flip, hinput.symm, houtput.symm⟩

/-- A session with a function that returns what its free name `x` stands for. -/
def withFreeName : Machine :=
  (Machine.start {} {}).defined
    { name := "g", params := [], body := [.returnWith (some (.name "x" ⟨20, 21⟩)) ⟨11, 21⟩],
      span := ⟨0, 21⟩ }

/-- The session after `x` has been bound in its own frame. -/
def withLocalName : Machine :=
  final (execute 1 2 (.assign "x" (.literal (.int 7) ⟨8, 9⟩) ⟨0, 9⟩) withFreeName)

/-- The `x` of a caller is not seen by the function that it calls. -/
theorem call_isolated_withLocalName :
    withFreeName.Reachable 1 ∧ withLocalName.Reachable 1 ∧
      withLocalName.store.get? withLocalName.scope "x" = some (.int 7) ∧
      ∃ final, Settles (fun fuel => evaluate 1 fuel (.call "g" [] ⟨0, 3⟩)) withLocalName
        (.error ⟨.undefinedVariable "x", ⟨20, 21⟩⟩) final := by
  have hfirst : withFreeName.Reachable 1 := .defined (.start {} {}) _
  obtain ⟨next, hassign⟩ : ∃ next,
      execute 1 2 (.assign "x" (.literal (.int 7) ⟨8, 9⟩) ⟨0, 9⟩) withFreeName =
        .ok .normal next := ⟨_, by cbv⟩
  have hsecond : withLocalName.Reachable 1 := .statement hfirst (finished_of_eq_ok hassign)
  have hagree : withFreeName.Agree .same withLocalName := by
    have hobeys := (Machine.scoping 1).obeys_execute 2
      (.assign "x" (.literal (.int 7) ⟨8, 9⟩) ⟨0, 9⟩) withFreeName hfirst.wellScoped
    have hglobals : withFreeName.SameGlobals withLocalName :=
      hobeys.1.sameGlobals hfirst.wellScoped
    refine ⟨?_, by cbv, by cbv, by cbv⟩
    intro name
    rw [Store.own?, Store.own?, hglobals]
    exact Value.rel_same _
  have hcall : SameCall 1 .same "g" [] withFreeName withLocalName := by
    refine ⟨⟨_, _, by cbv, by cbv, ⟨rfl, rfl, rfl, rfl, rfl⟩⟩, ?_⟩
    exact ⟨[], [], _, _, ⟨0, rfl⟩, ⟨0, rfl⟩, .nil, hagree.input, hagree.output⟩
  have hfault : Settles (fun fuel => evaluate 1 fuel (.call "g" [] ⟨0, 3⟩)) withFreeName
      (.error ⟨.undefinedVariable "x", ⟨20, 21⟩⟩) withFreeName := ⟨4, by cbv⟩
  obtain ⟨result, final, hsettles, hsame, _⟩ :=
    (call_isolated ⟨0, 3⟩ hfirst hsecond hagree hcall).1 _ _ hfault
  cases result with
  | ok value => exact hsame.elim
  | error error =>
    cases hsame
    exact ⟨hfirst, hsecond, by cbv, final, hsettles⟩

end Eval
end KawaiiLang
