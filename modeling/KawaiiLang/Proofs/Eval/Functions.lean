import KawaiiLang.Proofs.Eval.Law
import KawaiiLang.Proofs.Eval.Session
import KawaiiLang.Proofs.Scope.Store

namespace KawaiiLang

namespace Store

variable {store : Store} {id other : FrameId} {name key : String} {value found : Value}

/-- What is found after a binding is the value that was bound, or was there before. -/
theorem own?_of_define (hfound : (store.define id name value).own? other key = some found) :
    found = value ∨ store.own? other key = some found := by
  rw [own?, define, frames_update] at hfound
  split at hfound
  · obtain ⟨frame, hframe, hfind⟩ := Option.bind_eq_some_iff.mp hfound
    obtain ⟨older, holder, rfl⟩ := Option.map_eq_some_iff.mp hframe
    rw [Bindings.find?_insert] at hfind
    split at hfind
    · exact .inl (Option.some.inj hfind).symm
    · exact .inr ((own?_of_frame holder key).trans hfind)
  · exact .inr hfound

theorem own?_of_assign?
    (hfound : ((store.assign? id name value).getD store).own? other key = some found) :
    found = value ∨ store.own? other key = some found := by
  rw [assign?] at hfound
  cases hresolve : store.resolve? id name with
  | none =>
    rw [hresolve] at hfound
    exact .inr hfound
  | some home =>
    rw [hresolve] at hfound
    exact own?_of_define hfound

/-- A name that is seen from a frame is bound in some frame. -/
theorem exists_own?_of_get? (hfound : store.get? id name = some found) :
    ∃ home, store.own? home name = some found := by
  obtain ⟨home, _, hown⟩ := Option.bind_eq_some_iff.mp hfound
  exact ⟨home, hown⟩

/-- Giving up a frame binds nothing. -/
theorem own?_of_pop (hfound : store.pop.own? other key = some found) :
    store.own? other key = some found := by
  obtain ⟨frame, hframe, hfind⟩ := Option.bind_eq_some_iff.mp hfound
  rw [pop, Array.getElem?_pop] at hframe
  split at hframe
  · exact (own?_of_frame hframe key).trans hfind
  · cases hframe

end Store

/-- The function that a definition makes. -/
def FunctionDef.closure (function : FunctionDef) (stamp : Nat) : Closure :=
  { stamp, name := function.name, params := function.params, body := function.body,
    home := Machine.globals }

/-- A function of that name that returns a number. -/
def FunctionDef.constant (name : String) (value : Int64) : FunctionDef :=
  { name, params := [], body := [.returnWith (some (.literal (.int value) ⟨18, 19⟩)) ⟨11, 19⟩],
    span := ⟨0, 19⟩ }

/-- If the value is a function, then it is as `p` says. -/
def Value.Satisfies (p : Closure → Prop) (value : Value) : Prop :=
  ∀ closure, value = .function closure → p closure

theorem Value.Satisfies.of_type {p : Closure → Prop} {value : Value}
    (htype : value.type ≠ .function) : value.Satisfies p := by
  intro closure hclosure
  subst hclosure
  exact absurd rfl htype

namespace Machine

variable {p : Closure → Prop} {machine : Machine}

/-- All functions that a machine holds, in whichever frame, are as `p` says. -/
def Holds (p : Closure → Prop) (machine : Machine) : Prop :=
  ∀ id name value, machine.store.own? id name = some value → value.Satisfies p

/-- The functions stay as they are required to be, and the call depth comes back. -/
structure Keeps (p : Closure → Prop) (before after : Machine) : Prop where
  holds : before.Holds p → after.Holds p
  depth : after.depth = before.depth

theorem Keeps.trans {first second third : Machine} (hfirst : first.Keeps p second)
    (hsecond : second.Keeps p third) : first.Keeps p third :=
  ⟨hsecond.holds ∘ hfirst.holds, hsecond.depth.trans hfirst.depth⟩

theorem holds_start (p : Closure → Prop) (input : Input) (output : Sink) :
    (start input output).Holds p := by
  intro id name value hown
  rw [start, Store.own?_push, Store.own?_push] at hown
  split at hown
  · cases hown
  · split at hown
    · cases hown
    · simp [Store.own?] at hown

theorem Holds.imp {q : Closure → Prop} (hholds : machine.Holds p)
    (himp : ∀ closure, p closure → q closure) : machine.Holds q :=
  fun id name value hown closure hclosure => himp closure (hholds id name value hown closure hclosure)

theorem Holds.define (hholds : machine.Holds p) (id : FrameId) (name : String) {value : Value}
    (hvalue : value.Satisfies p) :
    Holds p { machine with store := machine.store.define id name value } := by
  intro other key found hfound
  obtain rfl | hown := Store.own?_of_define hfound
  · exact hvalue
  · exact hholds other key found hown

/-- A frame may be entered if the functions that it binds are as required. -/
theorem Holds.inner (hholds : machine.Holds p) {frame : Frame}
    (hframe : ∀ name value, frame.bindings.find? name = some value → value.Satisfies p) :
    (machine.inner frame).Holds p := by
  intro id name value hown
  rw [Machine.inner, Store.own?_push] at hown
  split at hown
  · exact hframe name value hown
  · exact hholds id name value hown

theorem Holds.outer (hholds : machine.Holds p) (scope : FrameId) : (machine.outer scope).Holds p :=
  fun id name value hown => hholds id name value (Store.own?_of_pop hown)

theorem Holds.defined (hholds : machine.Holds p) (function : FunctionDef)
    (hfunction : ∀ stamp, p (function.closure stamp)) : (machine.defined function).Holds p := by
  have hsame : Holds p
      { machine with store := { machine.store with nextStamp := machine.store.nextStamp + 1 } } :=
    hholds
  refine hsame.define globals function.name ?_
  intro closure hclosure
  cases hclosure
  exact hfunction _

theorem Holds.definedAll (hholds : machine.Holds p) (functions : List FunctionDef)
    (hfunctions : ∀ function ∈ functions, ∀ stamp, p (function.closure stamp)) :
    (machine.definedAll functions).Holds p := by
  induction functions generalizing machine with
  | nil => exact hholds
  | cons function functions ih =>
    rw [List.forall_mem_cons] at hfunctions
    exact ih (hholds.defined function hfunctions.1) hfunctions.2

/-- Running code does not make functions, so those that it finds stay as they are. -/
def holding (limit : Nat) (p : Closure → Prop) : Law limit where
  ready := Holds p
  good := Value.Satisfies p
  change _ := Keeps p
  refl _ _ := ⟨id, rfl⟩
  trans := .trans
  write_of_read := id
  ready_of_change hready hkeeps := hkeeps.holds hready
  good_of_type := .of_type
  good_of_get hready hget := by
    obtain ⟨home, hown⟩ := Store.exists_own?_of_get? hget
    exact hready home _ _ hown
  input _ _ := ⟨id, rfl⟩
  output _ _ := ⟨id, rfl⟩
  define name _ hvalue := ⟨fun hholds => hholds.define _ name hvalue, rfl⟩
  update {machine name op current value} _ _ happly := by
    refine ⟨?_, rfl⟩
    intro hholds id key found hfound
    obtain rfl | hown := Store.own?_of_assign? hfound
    · exact .of_type (UpdateOp.apply_type happly).2
    · exact hholds id key found hown
  enter {machine closure args} hready _ hclosure hargs := by
    have hframe (name : String) (value : Value)
        (hfind : (callFrame closure args).bindings.find? name = some value) :
        value.Satisfies p := by
      obtain hmem | hnone := Bindings.mem_of_find?_insertAll hfind
      · exact hargs value (List.of_mem_zip hmem).2
      · cases hnone
    have hentered : (machine.entered closure args).Holds p := hready.inner hframe
    refine ⟨hentered, ?_⟩
    intro next hnext
    refine ⟨fun _ => (hnext.holds hentered).outer machine.scope, ?_⟩
    have hdepth : next.depth = machine.depth + 1 := hnext.depth
    change next.depth - 1 = machine.depth
    rw [hdepth, Nat.add_sub_cancel]

end Machine
end KawaiiLang
