import Mathlib
import KawaiiLang.Proofs.Eval.Reachable
import KawaiiLang.Proofs.Program.Node

namespace KawaiiLang

/-- The node, or one below it, is an assignment to `name` or an update of it. What a function
    does that is called in the node is no part of it. -/
inductive Node.Targets (name : String) : Node → Prop where
  | assign {value : Expr} {span : Span} : Targets name (.statement (.assign name value span))
  | update {op : UpdateOp} {span : Span} : Targets name (.statement (.update name op span))
  | part {node part : Node} (hpart : part ∈ node.parts) (htargets : Targets name part) :
      Targets name node

def Stmt.Targets (statement : Stmt) (name : String) : Prop :=
  (Node.statement statement).Targets name

/-- One of the statements has `name` as a target. -/
def BodyTargets (body : List Stmt) (name : String) : Prop :=
  ∃ statement ∈ body, statement.Targets name

/-- A statement that has nothing to do but to evaluate expressions. -/
def Stmt.OnlyEvaluates : Stmt → Prop
  | returnWith .. | print .. | input .. | call .. => True
  | _ => False

/-- A statement that may fail and has no statements in it. -/
def Stmt.Simple : Stmt → Prop
  | assign .. | update .. => True
  | statement => statement.OnlyEvaluates

namespace Machine

/-- Only the current frame may have other bindings than before: it has kept all the names that
    it binds, and only some of those in `names` may have new values or be bound for the first
    time. -/
structure Confined (names : String → Prop) (before after : Machine) : Prop
    extends Writes before after where
  own : ∀ name, ¬ names name →
    after.store.own? before.scope name = before.store.own? before.scope name
  bound : ∀ name, (before.store.own? before.scope name).isSome →
    (after.store.own? before.scope name).isSome

variable {names : String → Prop} {machine : Machine}

theorem Reads.confined {before after : Machine} (hreads : before.Reads after) :
    before.Confined names after := by
  refine ⟨hreads.writes, ?_, ?_⟩
  · intro name _
    rw [hreads.store]
  · intro name hname
    rwa [hreads.store]

theorem Confined.trans {first second third : Machine} (hfirst : first.Confined names second)
    (hsecond : second.Confined names third) : first.Confined names third := by
  have hown := hsecond.own
  have hbound := hsecond.bound
  rw [hfirst.scope] at hown hbound
  refine ⟨hfirst.toWrites.trans hsecond.toWrites, ?_, ?_⟩
  · intro name hname
    exact (hown name hname).trans (hfirst.own name hname)
  · intro name hname
    exact hbound name (hfirst.bound name hname)

/-- Binding one of the names in the current frame. -/
theorem WellScoped.confined_define (hscoped : machine.WellScoped) {name : String}
    (hname : names name) {value : Value} (hvalue : value.Rooted) :
    machine.Confined names
      { machine with store := machine.store.define machine.scope name value } := by
  obtain ⟨frame, hframe, _⟩ := hscoped.scope_enclosing
  have hown := fun key => machine.store.own?_define machine.scope machine.scope name key value
    (WellScoped.lt_size_of_frame hframe)
  refine ⟨hscoped.writes_define name hvalue, ?_, ?_⟩
  · intro key hkey
    refine (hown key).trans (if_neg ?_)
    rintro ⟨_, rfl⟩
    exact hkey hname
  · intro key hkey
    rw [hown]
    split
    · rfl
    · exact hkey

end Machine

namespace Eval

variable {α β : Type} {limit : Nat} {names : String → Prop}

/-- A computation that leaves all bindings alone but those of some names in the current frame. -/
def Confines (names : String → Prop) (computation : Eval α) : Prop :=
  ∀ machine : Machine, machine.WellScoped → machine.Confined names (final (computation machine))

theorem confines_of_reads {result : α → Prop} {computation : Eval α}
    (hobeys : (Machine.scoping limit).Obeys .read result computation) :
    Confines names computation := by
  intro machine hscoped
  have hreads : machine.Reads _ := (hobeys machine hscoped).1
  exact hreads.confined

theorem confines_pure (value : α) : Confines names (pure value) := by
  have hobeys : (Machine.scoping 0).Obeys .read (fun _ => True) (pure value : Eval α) :=
    Law.obeys_pure trivial
  exact confines_of_reads hobeys

theorem confines_throw (reason : Interrupt) : Confines names (throw reason : Eval α) := by
  have hobeys : (Machine.scoping 0).Obeys .read (fun _ => True) (throw reason : Eval α) :=
    Law.obeys_throw reason
  exact confines_of_reads hobeys

theorem Confines.bind {step : Eval α} {next : α → Eval β} (hstep : Confines names step)
    (hnext : ∀ value, Confines names (next value)) : Confines names (step >>= next) := by
  intro machine hscoped
  have hconfined := hstep machine hscoped
  cases hresult : step machine with
  | ok value middle =>
    rw [hresult] at hconfined
    rw [bind_of_eq_ok hresult]
    exact hconfined.trans (hnext value middle (hconfined.wellScoped hscoped))
  | error reason middle =>
    rw [hresult] at hconfined
    rw [bind_of_eq_error hresult]
    exact hconfined

theorem confines_updateName (span : Span) {name : String} (hname : names name) (op : UpdateOp) :
    Confines names (updateName span name op) := by
  intro machine hscoped
  have hsame : machine.Confined names machine :=
    Machine.Reads.confined ((Machine.scoping 0).refl .read machine)
  rw [updateName, bind_of_eq_ok (find?_apply name machine)]
  cases hget : machine.store.get? machine.scope name with
  | none => exact hsame
  | some current =>
    dsimp only
    cases hvalue : op.apply name current with
    | error fault => exact hsame
    | ok value =>
      obtain ⟨hcurrent, htype⟩ := UpdateOp.apply_type hvalue
      have hconfined := hscoped.confined_define hname (.of_type htype)
      have hassign := hscoped.assign?_eq_define hget hcurrent value
      change machine.Confined names
        { machine with
          store := (machine.store.assign? machine.scope name value).getD machine.store }
      rw [hassign, Option.getD_some]
      exact hconfined

section

-- How the parts of a statement are evaluated and run. Bodies are confined to their targets.
variable {evaluate : Expr → Eval Value} {run : List Stmt → Eval Outcome}
  (hevaluate : ∀ expression,
    (Machine.scoping limit).Obeys .read Value.Rooted (evaluate expression))
  (hbodies : ∀ body, (Machine.scoping limit).Obeys .write (Machine.scoping limit).GoodOutcome
    (run body))
  (hrun : ∀ body, (∀ name, BodyTargets body name → names name) → Confines names (run body))

theorem confines_runBody {execute : Stmt → Eval Outcome} {body : List Stmt}
    (hexecute : ∀ statement ∈ body, Confines names (execute statement)) :
    Confines names (runBody execute body) := by
  induction body with
  | nil => exact confines_pure _
  | cons first rest ih =>
    obtain ⟨hfirst, hrest⟩ := List.forall_mem_cons.mp hexecute
    refine hfirst.bind ?_
    intro outcome
    cases outcome with
    | normal => exact ih hrest
    | returned | broke | continued => exact confines_pure _

include hevaluate in
theorem confines_runBranches {otherwise : List Stmt} {branches : List (Expr × List Stmt)}
    (hbranches : ∀ branch ∈ branches, Confines names (run branch.2))
    (hotherwise : Confines names (run otherwise)) :
    Confines names (runBranches evaluate run otherwise branches) := by
  induction branches with
  | nil => exact hotherwise
  | cons branch rest ih =>
    obtain ⟨condition, body⟩ := branch
    obtain ⟨hbody, hrest⟩ := List.forall_mem_cons.mp hbranches
    refine (confines_of_reads (hevaluate condition)).bind ?_
    intro value
    split
    · exact hbody
    · exact ih hrest

theorem confines_runLoop {condition : Eval Value} {body : Eval Outcome}
    (hcondition : Confines names condition) (hbody : Confines names body) (bound : Nat) :
    Confines names (runLoop condition body bound) := by
  induction bound with
  | zero => exact confines_throw _
  | succ bound ih =>
    refine hcondition.bind ?_
    intro value
    split
    · refine hbody.bind ?_
      intro outcome
      cases outcome with
      | normal | continued => exact ih
      | broke | returned => exact confines_pure _
    · exact confines_pure _

/-- A handler goes on from the bindings that the error has left. -/
theorem confines_rescue {body handler : Eval Outcome} (hbody : Confines names body)
    (hhandler : Confines names handler) : Confines names (rescue body handler) := by
  intro machine hscoped
  have hconfined := hbody machine hscoped
  cases hresult : body machine with
  | ok outcome next =>
    rw [hresult] at hconfined
    rwa [rescue_of_eq_ok hresult]
  | error reason next =>
    rw [hresult] at hconfined
    rw [rescue_of_eq_error hresult]
    split
    · exact hconfined.trans (hhandler next (hconfined.wellScoped hscoped))
    · exact hconfined

include hevaluate in
theorem confines_assign {target : String} (htarget : names target) (value : Expr) (span : Span)
    (rounds : Nat) :
    Confines names (executeWith limit rounds evaluate run (.assign target value span)) := by
  intro machine hscoped
  rw [executeWith]
  cases hvalue : evaluate value machine with
  | error reason middle =>
    obtain ⟨hreads, _⟩ := (hevaluate value).ready_of_eq_error hscoped hvalue
    rw [bind_of_eq_error hvalue]
    exact Machine.Reads.confined hreads
  | ok given middle =>
    obtain ⟨hreads, hmiddle, hgiven⟩ := (hevaluate value).ready_of_eq_ok hscoped hvalue
    rw [bind_of_eq_ok hvalue]
    exact (Machine.Reads.confined hreads).trans (hmiddle.confined_define htarget hgiven)

include hevaluate hbodies in
theorem reads_executeWith {statement : Stmt} (hstatement : statement.OnlyEvaluates) (rounds : Nat) :
    (Machine.scoping limit).Obeys .read (fun _ => True)
      (executeWith limit rounds evaluate run statement) := by
  cases statement with
  | returnWith value =>
    cases value with
    | none => exact Law.obeys_pure trivial
    | some value => exact (hevaluate value).bind fun _ _ => Law.obeys_pure trivial
  | print args span =>
    refine (Law.obeys_evaluateAll hevaluate args).bind ?_
    intro values _
    exact (Law.obeys_printValues span values).bind fun _ _ => Law.obeys_pure trivial
  | input prompt span =>
    exact (Law.obeys_readInput span prompt).bind fun _ _ => Law.obeys_pure trivial
  | call name args span =>
    refine (Law.obeys_call hevaluate hbodies span name args).bind ?_
    intro _ _
    exact Law.obeys_pure trivial
  | pass | breakLoop | continueLoop | assign | update | loop | branch | guarded =>
    exact hstatement.elim

include hevaluate hbodies hrun in
theorem confines_executeWith {statement : Stmt}
    (hnames : ∀ name, statement.Targets name → names name) (rounds : Nat) :
    Confines names (executeWith limit rounds evaluate run statement) := by
  have hpart {body : List Stmt}
      (hbody : ∀ inner ∈ body, Node.statement inner ∈ (Node.statement statement).parts) :
      Confines names (run body) := by
    refine hrun body ?_
    rintro name ⟨inner, hinner, htargets⟩
    exact hnames name (.part (hbody inner hinner) htargets)
  cases statement with
  | pass | breakLoop | continueLoop => exact confines_pure _
  | assign target value span =>
    exact confines_assign hevaluate (hnames target .assign) value span rounds
  | update name op span =>
    refine (confines_updateName span (hnames name .update) op).bind ?_
    intro _
    exact confines_pure _
  | returnWith | print | input | call =>
    refine confines_of_reads (reads_executeWith hevaluate hbodies ?_ rounds)
    trivial
  | loop condition body span =>
    refine confines_runLoop (confines_of_reads (hevaluate condition)) ?_ rounds
    cases body with
    | breakOnly | continueOnly => exact confines_pure _
    | block body =>
      refine hpart ?_
      intro inner hinner
      exact List.mem_cons_of_mem _ (List.mem_map_of_mem hinner)
  | branch condition body elifs otherwise span =>
    refine confines_runBranches hevaluate ?_ ?_
    · intro branch hbranch
      refine hpart ?_
      intro inner hinner
      refine List.mem_append_left _ (List.mem_flatMap.mpr ⟨branch, hbranch, ?_⟩)
      exact List.mem_cons_of_mem _ (List.mem_map_of_mem hinner)
    · refine hpart ?_
      intro inner hinner
      exact List.mem_append_right _ (List.mem_map_of_mem hinner)
  | guarded body handler span =>
    refine confines_rescue (hpart ?_) (hpart ?_)
    · intro inner hinner
      exact List.mem_append_left _ (List.mem_map_of_mem hinner)
    · intro inner hinner
      exact List.mem_append_right _ (List.mem_map_of_mem hinner)

end

/-- A statement is confined to its targets, by induction on the fuel. -/
theorem confines_execute (limit fuel : Nat) {statement : Stmt}
    (hnames : ∀ name, statement.Targets name → names name) :
    Confines names (execute limit fuel statement) := by
  induction fuel generalizing statement with
  | zero =>
    rw [execute_zero]
    exact confines_throw _
  | succ fuel ih =>
    rw [execute_succ]
    refine confines_executeWith ((Machine.scoping limit).obeys_evaluate fuel)
      ((Machine.scoping limit).obeys_executeBody fuel) ?_ hnames fuel
    intro body hbody
    refine confines_runBody ?_
    intro inner hinner
    exact ih fun name htargets => hbody name ⟨inner, hinner, htargets⟩

theorem confines_executeBody (limit fuel : Nat) (body : List Stmt) :
    Confines (BodyTargets body) (executeBody limit fuel body) := by
  refine confines_runBody ?_
  intro statement hstatement
  exact confines_execute limit fuel fun name htargets => ⟨statement, hstatement, htargets⟩

section

variable {fuel : Nat} {machine next : Machine} {reason : Interrupt} (hscoped : machine.WellScoped)

include hscoped

/-- An assignment fails before it binds its target. -/
theorem store_eq_of_assign_error {target : String} {value : Expr} {span : Span}
    (herror : execute limit fuel (.assign target value span) machine = .error reason next) :
    next.store = machine.store := by
  cases fuel with
  | zero =>
    rw [execute_zero] at herror
    cases herror
    rfl
  | succ fuel =>
    rw [execute_succ, executeWith] at herror
    cases hvalue : evaluate limit fuel value machine with
    | ok given middle =>
      rw [bind_of_eq_ok hvalue] at herror
      cases herror
    | error reason middle =>
      have hobeys := (Machine.scoping limit).obeys_evaluate fuel value
      rw [bind_of_eq_error hvalue] at herror
      cases herror
      exact Machine.Reads.store (hobeys.ready_of_eq_error hscoped hvalue).1

omit hscoped in
/-- An update fails before it changes the value. -/
theorem store_eq_of_update_error {name : String} {op : UpdateOp} {span : Span}
    (herror : execute limit fuel (.update name op span) machine = .error reason next) :
    next.store = machine.store := by
  cases fuel with
  | zero =>
    rw [execute_zero] at herror
    cases herror
    rfl
  | succ fuel =>
    rw [execute_succ, executeWith, updateName, bind_assoc,
      bind_of_eq_ok (find?_apply name machine)] at herror
    cases hget : machine.store.get? machine.scope name with
    | none =>
      rw [hget] at herror
      cases herror
      rfl
    | some current =>
      rw [hget] at herror
      cases hvalue : op.apply name current <;> simp only [hvalue] at herror <;> cases herror
      rfl

theorem store_eq_of_onlyEvaluates_error {statement : Stmt}
    (herror : execute limit fuel statement machine = .error reason next)
    (hstatement : statement.OnlyEvaluates) : next.store = machine.store := by
  cases fuel with
  | zero =>
    rw [execute_zero] at herror
    cases herror
    rfl
  | succ fuel =>
    have hreads := reads_executeWith ((Machine.scoping limit).obeys_evaluate fuel)
      ((Machine.scoping limit).obeys_executeBody fuel) hstatement fuel
    rw [execute_succ] at herror
    exact Machine.Reads.store (hreads.ready_of_eq_error hscoped herror).1

/-- A statement without statements in it that fails has not changed any binding. -/
theorem store_eq_of_simple_error {statement : Stmt}
    (herror : execute limit fuel statement machine = .error reason next)
    (hsimple : statement.Simple) : next.store = machine.store := by
  cases statement with
  | assign => exact store_eq_of_assign_error hscoped herror
  | update => exact store_eq_of_update_error herror
  | returnWith | print | input | call =>
    exact store_eq_of_onlyEvaluates_error hscoped herror hsimple
  | pass | breakLoop | continueLoop | loop | branch | guarded => exact hsimple.elim

end

end Eval

namespace Machine

/-- Running code writes to no frame but the current one, in whichever way it ends. In every
    machine that a session can come to, the evaluation of an expression changes no binding of
    any frame; a statement or a body takes no binding away, and it makes new ones and changes
    old ones only in the current frame and only for the names that it assigns to or updates;
    and a statement without statements in it that fails has changed nothing at all. -/
theorem Reachable.writes_only_targets {limit : Nat} {machine : Machine}
    (hreachable : machine.Reachable limit) :
    (∀ fuel expression,
      (Eval.final (Eval.evaluate limit fuel expression machine)).store = machine.store) ∧
      (∀ fuel statement, machine.Confined statement.Targets
        (Eval.final (Eval.execute limit fuel statement machine))) ∧
      (∀ fuel body, machine.Confined (BodyTargets body)
        (Eval.final (Eval.executeBody limit fuel body machine))) ∧
      ∀ fuel statement reason next, statement.Simple →
        Eval.execute limit fuel statement machine = .error reason next →
        next.store = machine.store := by
  have hscoped := hreachable.wellScoped
  refine ⟨?_, ?_, ?_, ?_⟩
  · intro fuel expression
    have hreads := ((scoping limit).obeys_evaluate fuel expression machine hscoped).1
    exact Reads.store hreads
  · intro fuel statement
    exact Eval.confines_execute limit fuel (fun _ => id) machine hscoped
  · intro fuel body
    exact Eval.confines_executeBody limit fuel body machine hscoped
  · intro fuel statement reason next hsimple herror
    exact Eval.store_eq_of_simple_error hscoped herror hsimple

/-- A block that binds `x` and fails at an attempt to count a function up. -/
def bindsAndFails : Stmt :=
  .guarded [.assign "x" (.literal (.int 1) ⟨17, 18⟩) ⟨9, 18⟩, .update "f" .increment ⟨19, 22⟩]
    [.assign "y" (.literal (.int 2) ⟨44, 45⟩) ⟨36, 45⟩] ⟨0, 47⟩

/-- The block and its handler have bound `x` and `y` in the frame of the session; the function
    in the global frame is what it was, although the block tried to update it. -/
theorem writes_only_targets_bindsAndFails :
    withIdentity.Reachable 1 ∧
      ∃ next, Eval.execute 1 3 bindsAndFails withIdentity = .ok .normal next ∧
        next.store.own? session "x" = some (.int 1) ∧ next.store.own? session "y" = some (.int 2) ∧
        next.store.frames[globals]? = withIdentity.store.frames[globals]? ∧
        ∀ name, ¬ bindsAndFails.Targets name →
          next.store.own? session name = withIdentity.store.own? session name := by
  have hreachable : withIdentity.Reachable 1 := .defined (.start {} {}) _
  obtain ⟨next, hnext⟩ : ∃ next,
      Eval.execute 1 3 bindsAndFails withIdentity = .ok .normal next := ⟨_, by cbv⟩
  have hfinal : Eval.final (Eval.execute 1 3 bindsAndFails withIdentity) = next := by
    rw [hnext, Eval.final]
  have hconfined := hreachable.writes_only_targets.2.1 3 bindsAndFails
  rw [hfinal] at hconfined
  refine ⟨hreachable, next, hnext, ?_, ?_, hconfined.frames globals (by decide), hconfined.own⟩
  · rw [← hfinal]
    cbv
  · rw [← hfinal]
    cbv

end Machine
end KawaiiLang
