import KawaiiLang.Eval.Basic
import KawaiiLang.Proofs.Computation

namespace KawaiiLang

namespace Machine

/-- The machine inside a new frame. -/
def inner (machine : Machine) (frame : Frame) : Machine :=
  { machine with store := machine.store.push frame, scope := machine.store.nextFrame }

/-- The machine back in the frame `scope`, with the youngest frame given up. -/
def outer (machine : Machine) (scope : FrameId) : Machine :=
  { machine with store := machine.store.pop, scope }

/-- The frame in which the body of a function runs on its arguments. -/
def callFrame (closure : Closure) (args : List Value) : Frame :=
  ⟨Bindings.empty.insertAll (closure.params.zip args), some closure.home⟩

/-- The machine in which the body of a function begins. -/
def entered (machine : Machine) (closure : Closure) (args : List Value) : Machine :=
  { machine.inner (callFrame closure args) with depth := machine.depth + 1 }

/-- The machine back with a caller whose frame is `scope`. -/
def left (machine : Machine) (scope : FrameId) : Machine :=
  { machine.outer scope with depth := machine.depth - 1 }

end Machine

/-- The value of a call whose body ended so. -/
def Outcome.value : Outcome → Value
  | .returned value => value
  | _ => .unit

/-- Whether a computation was stopped by a runtime error, which is what a handler is for. -/
def Interrupt.isRuntime : Interrupt → Bool
  | .failure error => error.isRuntime
  | .outOfFuel => false

theorem Interrupt.isRuntime_iff {reason : Interrupt} :
    reason.isRuntime = true ↔ ∃ error, reason = .fault error := by
  cases reason with
  | failure failure => simp [isRuntime, Failure.isRuntime_iff]
  | outOfFuel => exact ⟨nofun, nofun⟩

namespace Eval

variable {α β : Type}

/-- The machine that a computation leaves behind, in whichever way it ended. -/
def final : EStateM.Result Interrupt Machine α → Machine
  | .ok _ machine | .error _ machine => machine

/-- A computation has come to an end of its own, be it a fault. -/
def Finished (result : EStateM.Result Interrupt Machine α) : Prop :=
  ∀ machine, result ≠ .error .outOfFuel machine

theorem finished_of_eq_ok {result : EStateM.Result Interrupt Machine α} {value : α}
    {machine : Machine} (hresult : result = .ok value machine) : Finished result := by
  rw [hresult]
  nofun

theorem finished_of_eq_fault {result : EStateM.Result Interrupt Machine α} {error : RuntimeError}
    {machine : Machine} (hresult : result = .error (.fault error) machine) : Finished result := by
  rw [hresult]
  nofun

/-- A result that is none of missing fuel. -/
def ended : Except RuntimeError α → Machine → EStateM.Result Interrupt Machine α
  | .ok value, machine => .ok value machine
  | .error error, machine => .error (.fault error) machine

theorem finished_ended (result : Except RuntimeError α) (machine : Machine) :
    Finished (ended result machine) := by
  cases result with
  | ok value => exact finished_of_eq_ok rfl
  | error error => exact finished_of_eq_fault rfl

theorem final_ended (result : Except RuntimeError α) (machine : Machine) :
    final (ended result machine) = machine := by
  cases result <;> rfl

theorem write_apply (span : Span) (text : String) (machine : Machine) :
    write span text machine =
      ended ((machine.output.write text).1.mapError fun fault => ⟨.stream fault, span⟩)
        { machine with output := (machine.output.write text).2 } := by
  obtain ⟨store, scope, depth, input, output⟩ := machine
  unfold write
  dsimp only
  cases output.write text with
  | mk result next => cases result <;> rfl

theorem flush_apply (span : Span) (machine : Machine) :
    flush span machine =
      ended (machine.output.flush.1.mapError fun fault => ⟨.stream fault, span⟩)
        { machine with output := machine.output.flush.2 } := by
  obtain ⟨store, scope, depth, input, output⟩ := machine
  unfold flush
  dsimp only
  cases output.flush with
  | mk result next => cases result <;> rfl

theorem inFrame_of_eq_ok {frame : Frame} {body : Eval α} {machine next : Machine} {value : α}
    (hbody : body (machine.inner frame) = .ok value next) :
    inFrame frame body machine = .ok value (next.outer machine.scope) := by
  unfold Machine.inner at hbody
  simp only [inFrame, hbody, Machine.outer]

theorem inFrame_of_eq_error {frame : Frame} {body : Eval α} {machine next : Machine}
    {reason : Interrupt} (hbody : body (machine.inner frame) = .error reason next) :
    inFrame frame body machine = .error reason (next.outer machine.scope) := by
  unfold Machine.inner at hbody
  simp only [inFrame, hbody, Machine.outer]

theorem rescue_of_eq_ok {body : Eval α} {machine next : Machine} {value : α}
    (hbody : body machine = .ok value next) (handler : Eval α) :
    rescue body handler machine = .ok value next := by
  simp only [rescue, hbody]

theorem rescue_of_eq_error {body : Eval α} {machine next : Machine} {reason : Interrupt}
    (hbody : body machine = .error reason next) (handler : Eval α) :
    rescue body handler machine =
      if reason.isRuntime then handler next else .error reason next := by
  simp only [rescue, hbody]
  cases reason <;> rfl

theorem find?_apply (name : String) (machine : Machine) :
    find? name machine = .ok (machine.store.get? machine.scope name) machine :=
  rfl

theorem readLine_apply (span : Span) (machine : Machine) :
    readLine span machine =
      match machine.input.readLine? with
      | none => .error (.fault ⟨.inputExhausted, span⟩) machine
      | some (line, input) =>
        match line.text? with
        | some text => .ok (.str (InputLine.content text)) { machine with input }
        | none => .error (.fault ⟨.stream .notText, span⟩) { machine with input } := by
  rw [readLine, bind_of_eq_ok (get_apply machine)]
  cases machine.input.readLine? with
  | none => rfl
  | some read =>
    obtain ⟨line, input⟩ := read
    cases htext : line.text? <;> simp only [htext] <;> rfl

theorem callee_of_get {machine : Machine} {name : String} {closure : Closure}
    (hget : machine.store.get? machine.scope name = some (.function closure)) (span : Span)
    (given : Nat) :
    callee span name given machine =
      if closure.params.length = given then .ok closure machine
      else .error (.fault ⟨.arityMismatch name closure.params given, span⟩) machine := by
  rw [callee, bind_of_eq_ok (find?_apply name machine), hget]
  dsimp only
  split <;> rfl

theorem callee_eq_ok {span : Span} {name : String} {given : Nat} {machine next : Machine}
    {closure : Closure} (hcallee : callee span name given machine = .ok closure next) :
    machine.store.get? machine.scope name = some (.function closure) ∧
      closure.params.length = given ∧ next = machine := by
  rw [callee, bind_of_eq_ok (find?_apply name machine)] at hcallee
  cases hget : machine.store.get? machine.scope name with
  | none =>
    rw [hget] at hcallee
    cases hcallee
  | some value =>
    rw [hget] at hcallee
    cases value with
    | function found =>
      dsimp only at hcallee
      split at hcallee
      · next harity =>
        cases hcallee
        exact ⟨rfl, harity, rfl⟩
      · cases hcallee
    | unit | bool | int | float | str => cases hcallee

section

variable {limit : Nat} {run : List Stmt → Eval Outcome} {span : Span} {name : String}
  {closure : Closure} {args : List Value} {machine next : Machine}

/-- A call within the limit gives the value of its body. -/
theorem enter_of_eq_ok (hdepth : machine.depth < limit) {outcome : Outcome}
    (hrun : run closure.body (machine.entered closure args) = .ok outcome next) :
    enter limit run span name closure args machine =
      .ok outcome.value (next.left machine.scope) := by
  have hlimit : ¬ limit ≤ machine.depth := Nat.not_le.mpr hdepth
  have hbody : deeper (inFrame (Machine.callFrame closure args) (run closure.body)) machine =
      .ok outcome (next.left machine.scope) := by
    have hinside : inFrame _ _ { machine with depth := machine.depth + 1 } = _ :=
      inFrame_of_eq_ok hrun
    simp only [deeper, hinside]
    rfl
  unfold Machine.callFrame at hbody
  rw [enter, bind_of_eq_ok (get_apply machine), if_neg hlimit, bind_of_eq_ok hbody]
  cases outcome <;> rfl

theorem enter_of_eq_error (hdepth : machine.depth < limit) {reason : Interrupt}
    (hrun : run closure.body (machine.entered closure args) = .error reason next) :
    enter limit run span name closure args machine = .error reason (next.left machine.scope) := by
  have hlimit : ¬ limit ≤ machine.depth := Nat.not_le.mpr hdepth
  have hbody : deeper (inFrame (Machine.callFrame closure args) (run closure.body)) machine =
      .error reason (next.left machine.scope) := by
    have hinside : inFrame _ _ { machine with depth := machine.depth + 1 } = _ :=
      inFrame_of_eq_error hrun
    simp only [deeper, hinside]
    rfl
  unfold Machine.callFrame at hbody
  rw [enter, bind_of_eq_ok (get_apply machine), if_neg hlimit, bind_of_eq_error hbody]

theorem enter_of_limit_le (hdepth : limit ≤ machine.depth) :
    enter limit run span name closure args machine =
      .error (.fault ⟨.recursionLimit limit name, span⟩) machine := by
  rw [enter, bind_of_eq_ok (get_apply machine), if_pos hdepth]
  rfl

end

end Eval
end KawaiiLang
