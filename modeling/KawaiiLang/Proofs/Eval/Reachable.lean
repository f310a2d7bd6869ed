import Mathlib
import KawaiiLang.Proofs.Eval.Scoping

namespace KawaiiLang

namespace Machine

/-- The machines that a session can come to, with calls nested at most `limit` deep. The
    last two cases are machines in the middle of a run: the main entry has been entered,
    or a function has been, and what follows are the parts that have been run since. -/
inductive Reachable (limit : Nat) : Machine → Prop where
  | start (input : Input) (output : Sink) : Reachable limit (start input output)
  | input {machine : Machine} (hmachine : Reachable limit machine) (input : Input) :
      Reachable limit { machine with input }
  | defined {machine : Machine} (hmachine : Reachable limit machine) (function : FunctionDef) :
      Reachable limit (machine.defined function)
  | program {machine : Machine} {fuel : Nat} {program : Program}
      (hmachine : Reachable limit machine)
      (hfinished : Eval.Finished (Eval.runProgram limit fuel program machine)) :
      Reachable limit (Eval.final (Eval.runProgram limit fuel program machine))
  | line {machine : Machine} {fuel : Nat} {line : Line} (hmachine : Reachable limit machine)
      (hfinished : Eval.Finished (Eval.runLine limit fuel line machine)) :
      Reachable limit (Eval.final (Eval.runLine limit fuel line machine))
  | body {machine : Machine} {fuel : Nat} {body : List Stmt} (hmachine : Reachable limit machine)
      (hfinished : Eval.Finished (Eval.executeBody limit fuel body machine)) :
      Reachable limit (Eval.final (Eval.executeBody limit fuel body machine))
  | statement {machine : Machine} {fuel : Nat} {statement : Stmt}
      (hmachine : Reachable limit machine)
      (hfinished : Eval.Finished (Eval.execute limit fuel statement machine)) :
      Reachable limit (Eval.final (Eval.execute limit fuel statement machine))
  | expression {machine : Machine} {fuel : Nat} {expression : Expr}
      (hmachine : Reachable limit machine)
      (hfinished : Eval.Finished (Eval.evaluate limit fuel expression machine)) :
      Reachable limit (Eval.final (Eval.evaluate limit fuel expression machine))
  | main {machine : Machine} (hmachine : Reachable limit machine) :
      Reachable limit (machine.inner mainFrame)
  | call {machine next : Machine} {fuel : Nat} {name : String} {closure : Closure}
      {args : List Expr} {values : List Value} (hmachine : Reachable limit machine)
      (hclosure : machine.store.get? machine.scope name = some (.function closure))
      (harity : closure.params.length = args.length)
      (hargs : Eval.evaluateAll (Eval.evaluate limit fuel) args machine = .ok values next)
      (hdepth : next.depth < limit) : Reachable limit (next.entered closure values)

theorem wellScoped_start (input : Input) (output : Sink) : (start input output).WellScoped := by
  have hown : ∀ id name, (start input output).store.own? id name = none := by
    intro id name
    rw [start, Store.own?_push, Store.own?_push]
    split
    · rfl
    · split
      · rfl
      · simp [Store.own?]
  refine ⟨⟨{}, rfl, rfl⟩, ?_, ?_, ⟨mainFrame, rfl, rfl⟩⟩
  · intro name value hfound
    rw [hown] at hfound
    cases hfound
  · intro id name value hfound
    rw [hown] at hfound
    cases hfound

/-- The function that a definition makes. -/
def closureOf (machine : Machine) (function : FunctionDef) : Closure :=
  { stamp := machine.store.nextStamp, name := function.name, params := function.params,
    body := function.body, home := globals }

/-- What a definition does to the bindings: it binds the name of the function in the
    global frame, and nothing else. -/
theorem own?_defined {machine : Machine} (hscoped : machine.WellScoped) (function : FunctionDef)
    (id : FrameId) (name : String) :
    (machine.defined function).store.own? id name =
      if id = globals ∧ name = function.name then some (.function (machine.closureOf function))
      else machine.store.own? id name := by
  obtain ⟨root, hroot, _⟩ := hscoped.global_root
  exact Store.own?_define { machine.store with nextStamp := machine.store.nextStamp + 1 } globals id
    function.name name _ (WellScoped.lt_size_of_frame hroot)

theorem frames_defined (machine : Machine) (function : FunctionDef) (id : FrameId) :
    (machine.defined function).store.frames[id]? =
      if id = globals then
        machine.store.frames[id]?.map fun frame =>
          { frame with
            bindings :=
              frame.bindings.insert function.name (.function (machine.closureOf function)) }
      else machine.store.frames[id]? :=
  Store.frames_update { machine.store with nextStamp := machine.store.nextStamp + 1 } globals id _

theorem WellScoped.defined {machine : Machine} (hscoped : machine.WellScoped)
    (function : FunctionDef) : (machine.defined function).WellScoped := by
  constructor
  · obtain ⟨root, hroot, hnone⟩ := hscoped.global_root
    rw [frames_defined, if_pos rfl, hroot]
    exact ⟨_, rfl, hnone⟩
  · intro name value hown
    rw [own?_defined hscoped] at hown
    split at hown
    · next hname =>
      cases hown
      exact ⟨_, rfl, hname.2.symm⟩
    · exact hscoped.global_function name value hown
  · intro id name value hown
    rw [own?_defined hscoped] at hown
    split at hown
    · cases hown
      intro closure hclosure
      cases hclosure
      rfl
    · exact hscoped.rooted id name value hown
  · obtain ⟨frame, hframe, hsome⟩ := hscoped.scope_enclosing
    have hother := Nat.ne_of_gt hscoped.globals_lt_scope
    refine ⟨frame, ?_, hsome⟩
    exact (frames_defined machine function machine.scope).trans ((if_neg hother).trans hframe)

theorem WellScoped.definedAll {machine : Machine} (hscoped : machine.WellScoped)
    (functions : List FunctionDef) : (machine.definedAll functions).WellScoped := by
  induction functions generalizing machine with
  | nil => exact hscoped
  | cons function functions ih => exact ih (hscoped.defined function)

theorem WellScoped.main {machine : Machine} (hscoped : machine.WellScoped) :
    (machine.inner mainFrame).WellScoped :=
  hscoped.inner rfl nofun

theorem WellScoped.reads_flush {machine : Machine} (hscoped : machine.WellScoped) (span : Span) :
    machine.Reads (Eval.final (Eval.flush span machine)) :=
  ((scoping 0).obeys_flush span machine hscoped).1

/-- The main entry runs in a frame of its own, so of a program only the definitions are
    seen in the bindings afterwards. -/
theorem WellScoped.reads_runProgram {machine : Machine} (hscoped : machine.WellScoped)
    (limit fuel : Nat) (program : Program) :
    (machine.definedAll program.functions).Reads
      (Eval.final (Eval.runProgram limit fuel program machine)) := by
  have hdefined := hscoped.definedAll program.functions
  cases hmain : program.main with
  | none =>
    rw [Eval.runProgram_of_main_eq_none limit fuel machine hmain]
    exact ⟨rfl, rfl, rfl⟩
  | some main =>
    rw [Eval.final_runProgram limit fuel machine hmain]
    obtain ⟨hwrites, _⟩ := (scoping limit).obeys_executeBody fuel main.body _ hdefined.main
    generalize machine.definedAll program.functions = before at *
    generalize Eval.final (Eval.executeBody limit fuel main.body (before.inner mainFrame)) = after at *
    have houter : before.Reads (after.outer before.scope) :=
      ⟨hwrites.pop_eq rfl rfl, rfl, hwrites.depth⟩
    have hflush := (houter.writes.wellScoped hdefined).reads_flush (.single 0)
    exact houter.trans hflush

/-- The machine once the definition that a line may consist of has been made. -/
def definedBy (machine : Machine) : Line → Machine
  | .definition function => machine.defined function
  | _ => machine

theorem WellScoped.definedBy {machine : Machine} (hscoped : machine.WellScoped) (line : Line) :
    (machine.definedBy line).WellScoped := by
  cases line with
  | definition function => exact hscoped.defined function
  | empty | expression | statements => exact hscoped

theorem WellScoped.writes_perform {machine : Machine} (hscoped : machine.WellScoped)
    (limit fuel : Nat) (line : Line) :
    (machine.definedBy line).Writes (Eval.final (Eval.perform limit fuel line machine)) := by
  cases line with
  | empty => exact (scoping limit).refl .write machine
  | definition function => exact (scoping limit).refl .write (machine.defined function)
  | expression expression =>
    have hevaluate := ((scoping limit).obeys_evaluate fuel expression).write
    have hresult : (scoping limit).Obeys .write (fun _ => True)
        (Eval.perform limit fuel (.expression expression)) :=
      hevaluate.bind fun _ _ => Law.obeys_pure trivial
    exact (hresult machine hscoped).1
  | statements body =>
    have hresult : (scoping limit).Obeys .write (fun _ => True)
        (Eval.perform limit fuel (.statements body)) :=
      ((scoping limit).obeys_executeBody fuel body).bind fun _ _ => Law.obeys_pure trivial
    exact (hresult machine hscoped).1

/-- Of a line only a definition is seen in the global frame afterwards. -/
theorem WellScoped.writes_runLine {machine : Machine} (hscoped : machine.WellScoped)
    (limit fuel : Nat) (line : Line) :
    (machine.definedBy line).Writes (Eval.final (Eval.runLine limit fuel line machine)) := by
  have hperform := hscoped.writes_perform limit fuel line
  have hnext := hperform.wellScoped (hscoped.definedBy line)
  have hflush := (hnext.reads_flush (.single 0)).writes
  obtain hfinal | hfinal := Eval.final_runLine limit fuel line machine
  · rw [hfinal]
    exact hperform
  · rw [hfinal]
    exact hperform.trans hflush

/-- Every machine that a session can come to is well scoped. -/
theorem Reachable.wellScoped {limit : Nat} {machine : Machine}
    (hreachable : machine.Reachable limit) : machine.WellScoped := by
  induction hreachable with
  | start input output => exact wellScoped_start input output
  | input _ input ih => exact ((scoping limit).input _ input).writes.wellScoped ih
  | defined _ function ih => exact ih.defined function
  | @program _ fuel program _ _ ih =>
    exact (ih.reads_runProgram limit fuel program).writes.wellScoped (ih.definedAll _)
  | @line _ fuel line _ _ ih => exact (ih.writes_runLine limit fuel line).wellScoped (ih.definedBy line)
  | @body machine fuel body _ _ ih =>
    exact ((scoping limit).obeys_executeBody fuel body machine ih).1.wellScoped ih
  | @statement machine fuel statement _ _ ih =>
    exact ((scoping limit).obeys_execute fuel statement machine ih).1.wellScoped ih
  | @expression machine fuel expression _ _ ih =>
    exact ((scoping limit).obeys_evaluate fuel expression machine ih).1.writes.wellScoped ih
  | main _ ih => exact ih.main
  | @call machine _ fuel name closure args values _ hclosure _ hargs hdepth ih =>
    have hobeys := (scoping limit).obeys_evaluate fuel
    obtain ⟨_, hnext, hvalues⟩ := (Law.obeys_evaluateAll hobeys args).ready_of_eq_ok ih hargs
    exact ((scoping limit).enter hnext hdepth (ih.rooted_of_get hclosure) hvalues).1

/-- The global frame and its bindings are as they were. -/
def SameGlobals (before after : Machine) : Prop :=
  after.store.frames[globals]? = before.store.frames[globals]?

theorem Writes.sameGlobals {before after : Machine} (hwrites : before.Writes after)
    (hscoped : before.WellScoped) : before.SameGlobals after :=
  hwrites.frames globals (Nat.ne_of_lt hscoped.globals_lt_scope)

/-- Whatever a session does, in every machine that it comes to the global frame holds
    functions under their own names only, no function looks further than to the global
    frame, be it bound or returned, the current frame lies in the global one, and nothing
    but a definition changes the bindings of the global frame. -/
theorem Reachable.global_frame_invariant {limit : Nat} {machine : Machine}
    (hreachable : machine.Reachable limit) :
    machine.WellScoped ∧
      (∀ fuel expression value next,
        Eval.evaluate limit fuel expression machine = .ok value next → value.Rooted) ∧
      (∀ fuel body value next,
        Eval.executeBody limit fuel body machine = .ok (.returned value) next → value.Rooted) ∧
      (∀ fuel line value next,
        Eval.runLine limit fuel line machine = .ok (some value) next → value.Rooted) ∧
      (∀ fuel expression,
        machine.SameGlobals (Eval.final (Eval.evaluate limit fuel expression machine))) ∧
      (∀ fuel statement,
        machine.SameGlobals (Eval.final (Eval.execute limit fuel statement machine))) ∧
      (∀ fuel body, machine.SameGlobals (Eval.final (Eval.executeBody limit fuel body machine))) ∧
      (∀ fuel program, (machine.definedAll program.functions).SameGlobals
        (Eval.final (Eval.runProgram limit fuel program machine))) ∧
      (∀ fuel line, (machine.definedBy line).SameGlobals
        (Eval.final (Eval.runLine limit fuel line machine))) ∧
      ∀ function name, (machine.defined function).store.own? globals name =
        if name = function.name then some (.function (machine.closureOf function))
        else machine.store.own? globals name := by
  have hscoped := hreachable.wellScoped
  have hevaluate := (scoping limit).obeys_evaluate
  have hbody := (scoping limit).obeys_executeBody
  refine ⟨hscoped, ?_, ?_, ?_, ?_, ?_, ?_, ?_, ?_, ?_⟩
  · intro fuel expression value next hvalue
    exact ((hevaluate fuel expression).ready_of_eq_ok hscoped hvalue).2.2
  · intro fuel body value next hvalue
    exact ((hbody fuel body).ready_of_eq_ok hscoped hvalue).2.2
  · intro fuel line value next hvalue
    obtain ⟨expression, final, hvalue⟩ := Eval.evaluate_of_runLine hvalue
    exact ((hevaluate fuel expression).ready_of_eq_ok hscoped hvalue).2.2
  · intro fuel expression
    exact (hevaluate fuel expression machine hscoped).1.writes.sameGlobals hscoped
  · intro fuel statement
    exact ((scoping limit).obeys_execute fuel statement machine hscoped).1.sameGlobals hscoped
  · intro fuel body
    exact (hbody fuel body machine hscoped).1.sameGlobals hscoped
  · intro fuel program
    have hreads := hscoped.reads_runProgram limit fuel program
    exact hreads.writes.sameGlobals (hscoped.definedAll program.functions)
  · intro fuel line
    exact (hscoped.writes_runLine limit fuel line).sameGlobals (hscoped.definedBy line)
  · intro function name
    rw [own?_defined hscoped]
    simp only [true_and]

/-- A session that has defined a function which returns its argument. -/
def withIdentity : Machine :=
  (start {} {}).defined
    { name := "f", params := ["x"], body := [.returnWith (some (.name "x" ⟨9, 10⟩)) ⟨8, 10⟩],
      span := ⟨0, 10⟩ }

/-- The session after a failed attempt to count the function up. -/
def afterFailedUpdate : Machine :=
  Eval.final (Eval.execute 1 2 (.update "f" .increment ⟨0, 3⟩) withIdentity)

/-- The function, called on itself, comes back with the global frame as its home. -/
theorem global_frame_invariant_afterFailedUpdate :
    afterFailedUpdate.Reachable 1 ∧ afterFailedUpdate.WellScoped ∧
      ∃ closure next, Eval.evaluate 1 4 (.call "f" [.name "f" ⟨2, 3⟩] ⟨0, 4⟩) afterFailedUpdate =
        .ok (.function closure) next ∧ closure.home = globals := by
  have hfault : Eval.execute 1 2 (.update "f" .increment ⟨0, 3⟩) withIdentity =
      .error (.fault ⟨.notUpdatable .increment "f" .function, ⟨0, 3⟩⟩) withIdentity := by cbv
  have hidentity : withIdentity.Reachable 1 := .defined (.start {} {}) _
  have hreachable : afterFailedUpdate.Reachable 1 :=
    .statement hidentity (Eval.finished_of_eq_fault hfault)
  obtain ⟨hscoped, hrooted, _⟩ := hreachable.global_frame_invariant
  obtain ⟨closure, next, hcall⟩ : ∃ closure next,
      Eval.evaluate 1 4 (.call "f" [.name "f" ⟨2, 3⟩] ⟨0, 4⟩) afterFailedUpdate =
        .ok (.function closure) next := ⟨_, _, by cbv⟩
  exact ⟨hreachable, hscoped, closure, next, hcall, hrooted _ _ _ _ hcall _ rfl⟩

end Machine
end KawaiiLang
