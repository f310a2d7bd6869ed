import KawaiiLang.Proofs.Eval.Session
import KawaiiLang.Proofs.Scope.Store

namespace KawaiiLang

namespace Bindings

/-- Binding names to values side by side, from the first to the last. -/
inductive Adds {α : Type} : Bindings α → List String → List α → Bindings α → Prop where
  | nothing (bindings : Bindings α) : Adds bindings [] [] bindings
  | next {before after : Bindings α} {name : String} {names : List String} {value : α}
      {values : List α} (hrest : Adds (before.insert name value) names values after) :
      Adds before (name :: names) (value :: values) after

theorem adds_iff {α : Type} {names : List String} {values : List α} {before after : Bindings α} :
    before.Adds names values after ↔
      names.length = values.length ∧ before.insertAll (names.zip values) = after := by
  constructor
  · intro hadds
    induction hadds with
    | nothing => exact ⟨rfl, rfl⟩
    | next _ ih => exact ⟨congrArg (· + 1) ih.1, ih.2⟩
  · rintro ⟨hlength, rfl⟩
    induction names generalizing values before with
    | nil =>
      cases List.eq_nil_of_length_eq_zero hlength.symm
      exact .nothing before
    | cons name names ih =>
      obtain ⟨value, values, rfl⟩ := List.exists_cons_of_length_eq_add_one hlength.symm
      exact .next (ih (Nat.succ.inj hlength))

end Bindings

namespace Store

variable {store before after : Store} {id home : FrameId} {name : String} {value : Value}

/-- `store.Finds name id home value`: of the frames on the way outwards from `id`, the first
    that binds `name` is `home`, and it binds it to `value`. -/
inductive Finds (store : Store) (name : String) : FrameId → FrameId → Value → Prop where
  | here {id : FrameId} {frame : Frame} {value : Value} (hframe : store.frames[id]? = some frame)
      (hvalue : frame.bindings.find? name = some value) : Finds store name id id value
  | outwards {id outer home : FrameId} {frame : Frame} {value : Value}
      (hframe : store.frames[id]? = some frame) (hnone : frame.bindings.find? name = none)
      (houter : frame.enclosing = some outer) (hless : outer < id)
      (hfinds : Finds store name outer home value) : Finds store name id home value

/-- Looking a name up goes the way outwards. -/
theorem finds_iff : store.Finds name id home value ↔
    store.resolve? id name = some home ∧ store.own? home name = some value := by
  constructor
  · intro hfinds
    induction hfinds with
    | here hframe hvalue =>
      rw [resolve?, own?_of_frame hframe]
      simp only [hframe, hvalue, and_self]
    | outwards hframe hnone houter hless _ ih =>
      rw [resolve?]
      simp only [hframe, hnone, houter, if_pos hless]
      exact ih
  · rintro ⟨hresolve, hown⟩
    induction id using Nat.strongRecOn with
    | ind id ih =>
      rw [resolve?] at hresolve
      split at hresolve
      · cases hresolve
      · next frame hframe =>
        split at hresolve
        · cases hresolve
          rw [own?_of_frame hframe] at hown
          exact .here hframe hown
        · next hnone =>
          split at hresolve
          · cases hresolve
          · next outer houter =>
            split at hresolve
            · next hless => exact .outwards hframe hnone houter hless (ih outer hless hresolve)
            · cases hresolve

/-- Binding a name in a frame: the frame has the binding then, and nothing else has changed. -/
structure Binds (before : Store) (id : FrameId) (name : String) (value : Value) (after : Store) :
    Prop where
  frame : after.frames[id]? = before.frames[id]?.map fun frame =>
    { frame with bindings := frame.bindings.insert name value }
  others : ∀ other ≠ id, after.frames[other]? = before.frames[other]?
  nextStamp : after.nextStamp = before.nextStamp

theorem binds_iff : before.Binds id name value after ↔ before.define id name value = after := by
  have hframes (other : FrameId) : (before.define id name value).frames[other]? =
      if other = id then before.frames[other]?.map fun frame =>
        { frame with bindings := frame.bindings.insert name value }
      else before.frames[other]? := frames_update before id other _
  constructor
  · intro hbinds
    have hsame : (before.define id name value).frames = after.frames := by
      refine Array.ext_getElem? ?_
      intro other
      rw [hframes]
      split
      · next hid => rw [hid, hbinds.frame]
      · next hid => exact (hbinds.others other hid).symm
    obtain ⟨frames, nextStamp⟩ := after
    cases hsame
    cases hbinds.nextStamp
    rfl
  · rintro rfl
    refine ⟨?_, ?_, rfl⟩
    · rw [hframes, if_pos rfl]
    · intro other hother
      rw [hframes, if_neg hother]

end Store

namespace Machine

variable {machine inside outside next : Machine}

/-- The value that a name has where the machine is. -/
def Sees (machine : Machine) (name : String) (value : Value) : Prop :=
  ∃ home, machine.store.Finds name machine.scope home value

theorem sees_iff {name : String} {value : Value} :
    machine.Sees name value ↔ machine.store.get? machine.scope name = some value := by
  unfold Sees Store.get?
  rw [Option.bind_eq_some_iff]
  exact exists_congr fun home => Store.finds_iff

theorem not_sees_iff {name : String} :
    (∀ value, ¬ machine.Sees name value) ↔ machine.store.get? machine.scope name = none := by
  rw [Option.eq_none_iff_forall_ne_some]
  exact forall_congr' fun value => not_congr sees_iff

/-- Going into a new frame: it was not there before, and nothing else has changed. -/
structure Opens (machine : Machine) (frame : Frame) (inside : Machine) : Prop where
  fresh : machine.store.frames[inside.scope]? = none
  made : inside.store.frames[inside.scope]? = some frame
  others : ∀ id ≠ inside.scope, inside.store.frames[id]? = machine.store.frames[id]?
  rest : inside = { machine with
    store := { machine.store with frames := inside.store.frames }, scope := inside.scope }

theorem opens_iff {frame : Frame} : machine.Opens frame inside ↔ machine.inner frame = inside := by
  constructor
  · rintro ⟨hfresh, hmade, hothers, hrest⟩
    have hscope : machine.store.nextFrame = inside.scope := by
      by_contra hother
      have hsize := Array.getElem?_eq_none_iff.mp hfresh
      have hempty := hothers _ hother
      rw [Store.nextFrame, Array.getElem?_eq_none (Nat.le_refl _)] at hempty
      have hinside := (Array.getElem?_eq_some_iff.mp hmade).1
      have hnone := Array.getElem?_eq_none_iff.mp hempty
      unfold Store.nextFrame at hother
      omega
    have hframes : (machine.store.push frame).frames = inside.store.frames := by
      refine Array.ext_getElem? ?_
      intro id
      rw [Store.frames_push, hscope]
      split
      · next hid => rw [hid, hmade]
      · next hid => exact (hothers id hid).symm
    rw [hrest, ← hscope, ← hframes]
    rfl
  · rintro rfl
    refine ⟨Array.getElem?_eq_none (Nat.le_refl _), ?_, ?_, rfl⟩
    · exact (Store.frames_push ..).trans (if_pos rfl)
    · intro id hid
      exact (Store.frames_push ..).trans (if_neg hid)

/-- Going back to the frame `scope`: the youngest frame is given up, and nothing else has
    changed. -/
structure Closes (inside : Machine) (scope : FrameId) (outside : Machine) : Prop where
  size : outside.store.frames.size = inside.store.frames.size - 1
  others : ∀ id < outside.store.frames.size,
    outside.store.frames[id]? = inside.store.frames[id]?
  rest : outside = { inside with
    store := { inside.store with frames := outside.store.frames }, scope }

theorem closes_iff {scope : FrameId} :
    inside.Closes scope outside ↔ inside.outer scope = outside := by
  constructor
  · rintro ⟨hsize, hothers, hrest⟩
    have hframes : inside.store.frames.pop = outside.store.frames := by
      refine Array.ext_getElem? ?_
      intro id
      rw [Array.getElem?_pop]
      split
      · next hid => exact (hothers id (hsize ▸ hid)).symm
      · next hid => rw [Array.getElem?_eq_none (by omega)]
    rw [hrest, ← hframes]
    rfl
  · rintro rfl
    refine ⟨Array.size_pop, ?_, rfl⟩
    intro id hid
    have hsize : (inside.outer scope).store.frames.size = inside.store.frames.size - 1 := Array.size_pop
    exact Array.getElem?_pop.trans (if_pos (hsize ▸ hid))

/-- The body of a function begins in a frame that binds the parameters and lies in the frame of
    the definition. -/
theorem Opens.entered_eq {closure : Closure} {values : List Value} {bindings : Bindings Value}
    (hopens : machine.Opens ⟨bindings, some closure.home⟩ inside)
    (hadds : Bindings.empty.Adds closure.params values bindings) :
    machine.entered closure values = { inside with depth := machine.depth + 1 } := by
  obtain ⟨_, rfl⟩ := Bindings.adds_iff.mp hadds
  obtain rfl := opens_iff.mp hopens
  rfl

/-- Defining functions in the global frame, from the first to the last. Each is a value of its
    own and has the global frame as its home. -/
inductive Defines : Machine → List FunctionDef → Machine → Prop where
  | nothing (machine : Machine) : Defines machine [] machine
  | function {machine next : Machine} {function : FunctionDef} {functions : List FunctionDef}
      {store : Store}
      (hbinds : Store.Binds { machine.store with nextStamp := machine.store.nextStamp + 1 } globals
        function.name (.function ⟨machine.store.nextStamp, function.name, function.params,
          function.body, globals⟩) store)
      (hrest : Defines { machine with store } functions next) :
      Defines machine (function :: functions) next

theorem defines_iff {functions : List FunctionDef} :
    machine.Defines functions next ↔ machine.definedAll functions = next := by
  induction functions generalizing machine with
  | nil =>
    constructor
    · rintro ⟨⟩
      rfl
    · rintro rfl
      exact .nothing _
  | cons function functions ih =>
    constructor
    · intro hdefines
      cases hdefines with
      | function hbinds hrest =>
        cases Store.binds_iff.mp hbinds
        exact ih.mp hrest
    · intro hnext
      exact .function (Store.binds_iff.mpr rfl) (ih.mpr hnext)

end Machine
end KawaiiLang
