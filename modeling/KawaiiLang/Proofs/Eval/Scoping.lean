import KawaiiLang.Proofs.Eval.Law
import KawaiiLang.Proofs.Eval.Session
import KawaiiLang.Proofs.Scope.Store

namespace KawaiiLang

/-- If the value is a function, then its free names are looked up in the global frame. -/
def Value.Rooted (value : Value) : Prop :=
  ∀ closure, value = .function closure → closure.home = Machine.globals

theorem Value.Rooted.of_type {value : Value} (htype : value.type ≠ .function) : value.Rooted := by
  intro closure hclosure
  subst hclosure
  exact absurd rfl htype

namespace Machine

/-- What holds between any two steps of a run: the global frame lies in no other and
    binds functions under their own names only, no function leads to another frame, and
    the current frame lies in the global one. -/
structure WellScoped (machine : Machine) : Prop where
  global_root : ∃ frame, machine.store.frames[globals]? = some frame ∧ frame.enclosing = none
  global_function : ∀ name value, machine.store.own? globals name = some value →
    ∃ closure, value = .function closure ∧ closure.name = name
  rooted : ∀ id name value, machine.store.own? id name = some value → value.Rooted
  scope_enclosing : ∃ frame, machine.store.frames[machine.scope]? = some frame ∧
    frame.enclosing = some globals

/-- All that the evaluation of an expression may change are the input and the output. -/
structure Reads (before after : Machine) : Prop where
  store : after.store = before.store
  scope : after.scope = before.scope
  depth : after.depth = before.depth

/-- Besides, a statement may change the bindings of the current frame. -/
structure Writes (before after : Machine) : Prop where
  scope : after.scope = before.scope
  depth : after.depth = before.depth
  nextStamp : after.store.nextStamp = before.store.nextStamp
  nextFrame : after.store.nextFrame = before.store.nextFrame
  frames : ∀ id, id ≠ before.scope → after.store.frames[id]? = before.store.frames[id]?
  wellScoped : before.WellScoped → after.WellScoped

theorem Reads.trans {first second third : Machine} (hfirst : first.Reads second)
    (hsecond : second.Reads third) : first.Reads third :=
  ⟨hsecond.store.trans hfirst.store, hsecond.scope.trans hfirst.scope,
    hsecond.depth.trans hfirst.depth⟩

theorem Reads.writes {before after : Machine} (hreads : before.Reads after) :
    before.Writes after := by
  refine ⟨hreads.scope, hreads.depth, by rw [hreads.store], by rw [hreads.store], ?_, ?_⟩
  · intro id _
    rw [hreads.store]
  · rintro ⟨hroot, hfunction, hrooted, hscope⟩
    rw [← hreads.store] at hroot hfunction hrooted hscope
    rw [← hreads.scope] at hscope
    exact ⟨hroot, hfunction, hrooted, hscope⟩

theorem Writes.trans {first second third : Machine} (hfirst : first.Writes second)
    (hsecond : second.Writes third) : first.Writes third where
  scope := hsecond.scope.trans hfirst.scope
  depth := hsecond.depth.trans hfirst.depth
  nextStamp := hsecond.nextStamp.trans hfirst.nextStamp
  nextFrame := hsecond.nextFrame.trans hfirst.nextFrame
  frames id hid := by
    have hother : id ≠ second.scope := hfirst.scope ▸ hid
    rw [hsecond.frames id hother, hfirst.frames id hid]
  wellScoped := hsecond.wellScoped ∘ hfirst.wellScoped

namespace WellScoped

variable {machine : Machine}

/-- The current frame is not the global one. -/
theorem globals_lt_scope (hscoped : machine.WellScoped) : globals < machine.scope := by
  obtain ⟨root, hroot, hnone⟩ := hscoped.global_root
  obtain ⟨frame, hframe, hsome⟩ := hscoped.scope_enclosing
  refine Nat.pos_of_ne_zero ?_
  intro hzero
  rw [hzero, ← globals, hroot] at hframe
  cases hframe
  rw [hnone] at hsome
  cases hsome

/-- A name is looked up in the current frame and then in the global one. -/
theorem get?_eq (hscoped : machine.WellScoped) (name : String) :
    machine.store.get? machine.scope name =
      (machine.store.own? machine.scope name).or (machine.store.own? globals name) := by
  obtain ⟨root, hroot, hnone⟩ := hscoped.global_root
  obtain ⟨frame, hframe, hsome⟩ := hscoped.scope_enclosing
  rw [Store.get?_of_enclosing hframe hsome hscoped.globals_lt_scope, Store.get?_of_root hroot hnone]

theorem rooted_of_get (hscoped : machine.WellScoped) {name : String} {value : Value}
    (hget : machine.store.get? machine.scope name = some value) : value.Rooted := by
  rw [hscoped.get?_eq, Option.or_eq_some_iff] at hget
  obtain hown | ⟨_, hglobal⟩ := hget
  · exact hscoped.rooted machine.scope name value hown
  · exact hscoped.rooted globals name value hglobal

theorem lt_size_of_frame {store : Store} {id : FrameId} {frame : Frame}
    (hframe : store.frames[id]? = some frame) : id < store.frames.size :=
  (Array.getElem?_eq_some_iff.mp hframe).1

/-- Binding a name in the current frame. -/
theorem writes_define (hscoped : machine.WellScoped) (name : String) {value : Value}
    (hvalue : value.Rooted) :
    machine.Writes
      { machine with store := machine.store.define machine.scope name value } where
  scope := rfl
  depth := rfl
  nextStamp := rfl
  nextFrame := Store.nextFrame_update _ _ _
  frames id hid := by
    rw [Store.define, Store.frames_update, if_neg hid]
  wellScoped _ := by
    have hless := hscoped.globals_lt_scope
    obtain ⟨frame, hframe, hsome⟩ := hscoped.scope_enclosing
    have hown := fun id key => machine.store.own?_define machine.scope id name key value
      (lt_size_of_frame hframe)
    constructor
    · obtain ⟨root, hroot, hnone⟩ := hscoped.global_root
      refine ⟨root, ?_, hnone⟩
      rw [Store.define, Store.frames_update, if_neg (Nat.ne_of_lt hless), hroot]
    · intro key found hfound
      rw [hown, if_neg (fun hboth => Nat.ne_of_lt hless hboth.1)] at hfound
      exact hscoped.global_function key found hfound
    · intro id key found hfound
      rw [hown] at hfound
      split at hfound
      · cases hfound
        exact hvalue
      · exact hscoped.rooted id key found hfound
    · refine ⟨{ frame with bindings := frame.bindings.insert name value }, ?_, hsome⟩
      rw [Store.define, Store.frames_update, if_pos rfl, hframe, Option.map_some]

/-- An update in place goes to the current frame: a name that is found further out is a
    function, and functions are not updated. -/
theorem assign?_eq_define (hscoped : machine.WellScoped) {name : String} {current : Value}
    (hget : machine.store.get? machine.scope name = some current)
    (hcurrent : current.type ≠ .function) (value : Value) :
    machine.store.assign? machine.scope name value =
      some (machine.store.define machine.scope name value) := by
  rw [hscoped.get?_eq, Option.or_eq_some_iff] at hget
  obtain hown | ⟨_, hglobal⟩ := hget
  · exact Store.assign?_of_own hown value
  · obtain ⟨closure, rfl, _⟩ := hscoped.global_function name current hglobal
    exact absurd rfl hcurrent

/-- A frame inside the global one may be entered. -/
theorem inner (hscoped : machine.WellScoped) {frame : Frame}
    (henclosing : frame.enclosing = some globals)
    (hbindings : ∀ name value, frame.bindings.find? name = some value → value.Rooted) :
    (machine.inner frame).WellScoped := by
  obtain ⟨root, hroot, hnone⟩ := hscoped.global_root
  have hglobals : globals ≠ machine.store.nextFrame := Nat.ne_of_lt (lt_size_of_frame hroot)
  constructor
  · refine ⟨root, ?_, hnone⟩
    rw [Machine.inner, Store.frames_push, if_neg hglobals, hroot]
  · intro name value hown
    rw [Machine.inner, Store.own?_push, if_neg hglobals] at hown
    exact hscoped.global_function name value hown
  · intro id name value hown
    rw [Machine.inner, Store.own?_push] at hown
    split at hown
    · exact hbindings name value hown
    · exact hscoped.rooted id name value hown
  · refine ⟨frame, ?_, henclosing⟩
    rw [Machine.inner, Store.frames_push, if_pos rfl]

/-- The parameters of a function are bound to the arguments of its call. -/
theorem rooted_of_callFrame {closure : Closure} {args : List Value}
    (hargs : ∀ value ∈ args, value.Rooted) (name : String) (value : Value)
    (hfind : (callFrame closure args).bindings.find? name = some value) : value.Rooted := by
  obtain hmem | hnone := Bindings.mem_of_find?_insertAll hfind
  · exact hargs value (List.of_mem_zip hmem).2
  · cases hnone

end WellScoped

/-- Giving up the frame that was entered leaves no trace of what was written there. -/
theorem Writes.pop_eq {store : Store} {frame : Frame} {before after : Machine}
    (hwrites : before.Writes after) (hstore : before.store = store.push frame)
    (hscope : before.scope = store.nextFrame) : after.store.pop = store := by
  have hsize : after.store.frames.size = store.frames.size + 1 := by
    have hnext := hwrites.nextFrame
    rw [hstore] at hnext
    exact hnext.trans (Array.size_push frame)
  have hframes : after.store.frames.pop = store.frames := by
    apply Array.ext_getElem?
    intro id
    rw [Array.getElem?_pop, hsize, Nat.add_sub_cancel]
    split
    · next hid =>
      have hother : id ≠ store.nextFrame := Nat.ne_of_lt hid
      rw [hwrites.frames id (hscope ▸ hother), hstore, Store.frames_push, if_neg hother]
    · next hid => exact (Array.getElem?_eq_none (Nat.not_lt.mp hid)).symm
  have hstamp : after.store.nextStamp = store.nextStamp := by
    rw [hwrites.nextStamp, hstore]
    rfl
  change Store.mk after.store.frames.pop after.store.nextStamp = store
  rw [hframes, hstamp]

/-- What running code may change, by the way in which it deals with a machine. -/
def Changes : Access → Machine → Machine → Prop
  | .read => Reads
  | .write => Writes

theorem Changes.refl (access : Access) (machine : Machine) : Changes access machine machine := by
  have hreads : machine.Reads machine := ⟨rfl, rfl, rfl⟩
  cases access with
  | read => exact hreads
  | write => exact hreads.writes

theorem Changes.trans {access : Access} {first second third : Machine}
    (hfirst : Changes access first second) (hsecond : Changes access second third) :
    Changes access first third := by
  cases access with
  | read => exact Reads.trans hfirst hsecond
  | write => exact Writes.trans hfirst hsecond

theorem WellScoped.of_changes {access : Access} {before after : Machine}
    (hscoped : before.WellScoped) (hchanges : Changes access before after) : after.WellScoped := by
  cases access with
  | read => exact (Reads.writes hchanges).wellScoped hscoped
  | write => exact Writes.wellScoped hchanges hscoped

namespace WellScoped

variable {machine : Machine}

theorem writes_update (hscoped : machine.WellScoped) {name : String} {op : UpdateOp}
    {current value : Value} (hget : machine.store.get? machine.scope name = some current)
    (happly : op.apply name current = .ok value) :
    machine.Writes
      { machine with
        store := (machine.store.assign? machine.scope name value).getD machine.store } := by
  obtain ⟨hcurrent, hvalue⟩ := UpdateOp.apply_type happly
  rw [hscoped.assign?_eq_define hget hcurrent, Option.getD_some]
  exact hscoped.writes_define name (.of_type hvalue)

/-- A call starts in the frame that it has made. -/
theorem entered (hscoped : machine.WellScoped) {closure : Closure} {args : List Value}
    (hclosure : (Value.function closure).Rooted) (hargs : ∀ value ∈ args, value.Rooted) :
    (machine.entered closure args).WellScoped := by
  have henclosing : (callFrame closure args).enclosing = some globals :=
    congrArg some (hclosure closure rfl)
  have hinner := hscoped.inner henclosing (rooted_of_callFrame hargs)
  exact ⟨hinner.global_root, hinner.global_function, hinner.rooted, hinner.scope_enclosing⟩

end WellScoped

/-- To its caller a call is an expression like any other. -/
theorem Writes.reads_left {machine next : Machine} {closure : Closure} {args : List Value}
    (hwrites : (machine.entered closure args).Writes next) :
    machine.Reads (next.left machine.scope) := by
  have hdepth : next.depth = machine.depth + 1 := hwrites.depth
  refine ⟨hwrites.pop_eq rfl rfl, rfl, ?_⟩
  change next.depth - 1 = machine.depth
  omega

/-- Running code does not leave the scopes that it has. -/
def scoping (limit : Nat) : Law limit where
  ready := WellScoped
  good := Value.Rooted
  change := Changes
  refl := .refl
  trans := .trans
  write_of_read := Reads.writes
  ready_of_change := .of_changes
  good_of_type := .of_type
  good_of_get hready hget := hready.rooted_of_get hget
  input _ _ := ⟨rfl, rfl, rfl⟩
  output _ _ := ⟨rfl, rfl, rfl⟩
  define name hready hvalue := hready.writes_define name hvalue
  update hready hget happly := hready.writes_update hget happly
  enter hready _ hclosure hargs :=
    ⟨hready.entered hclosure hargs, fun _ hwrites => Writes.reads_left hwrites⟩

end Machine
end KawaiiLang
