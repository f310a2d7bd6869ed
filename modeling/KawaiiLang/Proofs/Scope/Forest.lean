import Mathlib
import KawaiiLang.Proofs.Scope.Store

namespace KawaiiLang.Store

/-- `store.Chain id path`: the frames in `path` lie one in the other, from the frame `id` outwards
    to one that lies in no other. -/
inductive Chain (store : Store) : FrameId → List FrameId → Prop where
  | root {id : FrameId} {frame : Frame} (hframe : store.frames[id]? = some frame)
      (hroot : frame.enclosing = none) : Chain store id [id]
  | inside {id outer : FrameId} {frame : Frame} {path : List FrameId}
      (hframe : store.frames[id]? = some frame) (houter : frame.enclosing = some outer)
      (hpath : Chain store outer path) : Chain store id (id :: path)

/-- A frame lies only in a frame that was made before it. -/
def Forest (store : Store) : Prop :=
  ∀ (id : FrameId) (frame : Frame) (outer : FrameId),
    store.frames[id]? = some frame → frame.enclosing = some outer → outer < id

/-- All frames are still there, and each lies where it did. -/
def Retains (before after : Store) : Prop :=
  ∀ (id : FrameId) (frame : Frame), before.frames[id]? = some frame →
    ∃ later : Frame, after.frames[id]? = some later ∧ later.enclosing = frame.enclosing

variable {store : Store} {id : FrameId} {path : List FrameId}

theorem lt_nextFrame_of_frame {frame : Frame} (hframe : store.frames[id]? = some frame) :
    id < store.nextFrame :=
  (Array.getElem?_eq_some_iff.mp hframe).1

theorem own?_nextFrame (store : Store) (name : String) :
    store.own? store.nextFrame name = none := by
  rw [own?, nextFrame, Array.getElem?_eq_none (Nat.le_refl _), Option.bind_none]

/-- Every frame has a way outwards that ends: the frames on it get older and older. -/
theorem Forest.exists_chain (hforest : store.Forest) (hid : id < store.nextFrame) :
    ∃ path, store.Chain id path := by
  induction id using Nat.strong_induction_on with
  | h id ih =>
    have hframe : store.frames[id]? = some store.frames[id] := Array.getElem?_eq_getElem hid
    cases houter : store.frames[id].enclosing with
    | none => exact ⟨[id], .root hframe houter⟩
    | some outer =>
      have hless := hforest id _ outer hframe houter
      obtain ⟨path, hpath⟩ := ih outer hless (hless.trans hid)
      exact ⟨id :: path, .inside hframe houter hpath⟩

theorem Chain.head?_eq (hchain : store.Chain id path) : path.head? = some id := by
  cases hchain <;> rfl

theorem Chain.le (hforest : store.Forest) (hchain : store.Chain id path) :
    ∀ other ∈ path, other ≤ id := by
  induction hchain with
  | root => simp
  | @inside id outer frame path hframe houter _ ih =>
    have hless := hforest id frame outer hframe houter
    refine List.forall_mem_cons.mpr ⟨Nat.le_refl id, ?_⟩
    intro other hother
    exact (ih other hother).trans hless.le

/-- No frame lies, directly or not, in itself. -/
theorem Chain.nodup (hforest : store.Forest) (hchain : store.Chain id path) : path.Nodup := by
  induction hchain with
  | root => exact List.nodup_singleton _
  | @inside id outer frame path hframe houter hpath ih =>
    have hless := hforest id frame outer hframe houter
    refine List.nodup_cons.mpr ⟨?_, ih⟩
    intro hmem
    exact absurd (hpath.le hforest id hmem) (Nat.not_le.mpr hless)

theorem Chain.retained {after : Store} (hretains : store.Retains after)
    (hchain : store.Chain id path) : after.Chain id path := by
  induction hchain with
  | root hframe hroot =>
    obtain ⟨later, hlater, henclosing⟩ := hretains _ _ hframe
    exact .root hlater (henclosing.trans hroot)
  | inside hframe houter _ ih =>
    obtain ⟨later, hlater, henclosing⟩ := hretains _ _ hframe
    exact .inside hlater (henclosing.trans houter) ih

/-- A name is found in the first frame on the way outwards that binds it. -/
theorem Chain.resolve?_eq (hforest : store.Forest) (hchain : store.Chain id path) (name : String) :
    store.resolve? id name = path.find? fun frame => (store.own? frame name).isSome := by
  induction hchain with
  | root hframe hroot =>
    rw [resolve?, hframe, List.find?_cons, own?_of_frame hframe]
    cases hfind : Bindings.find? _ name <;> simp [hfind, hroot]
  | @inside id outer frame path hframe houter _ ih =>
    have hless := hforest id frame outer hframe houter
    rw [resolve?, hframe, List.find?_cons, own?_of_frame hframe]
    cases hfind : frame.bindings.find? name with
    | none => simp [hfind, houter, hless, ih]
    | some value => simp [hfind]

theorem Chain.get?_eq (hforest : store.Forest) (hchain : store.Chain id path) (name : String) :
    store.get? id name = path.findSome? fun frame => store.own? frame name := by
  induction hchain with
  | root hframe hroot =>
    rw [get?_of_root hframe hroot, List.findSome?_singleton]
  | @inside id outer frame path hframe houter _ ih =>
    rw [get?_of_enclosing hframe houter (hforest id frame outer hframe houter), ih,
      List.findSome?_cons]
    cases store.own? id name <;> rfl

/-- A binding is made anew in the first frame on the way outwards that has one. -/
theorem Chain.assign?_eq (hforest : store.Forest) (hchain : store.Chain id path) (name : String)
    (value : Value) :
    store.assign? id name value =
      (path.find? fun frame => (store.own? frame name).isSome).map fun home =>
        store.define home name value := by
  rw [assign?, hchain.resolve?_eq hforest]

/-- A name can be assigned to just where it is found. -/
theorem Chain.isSome_assign? (hforest : store.Forest) (hchain : store.Chain id path)
    (name : String) (value : Value) :
    (store.assign? id name value).isSome = (store.get? id name).isSome := by
  rw [hchain.assign?_eq hforest, hchain.get?_eq hforest, Option.isSome_map, List.isSome_findSome?,
    List.isSome_find?]

theorem retains_update (store : Store) (id : FrameId) (change : Bindings Value → Bindings Value) :
    store.Retains (store.update id change) := by
  intro other frame hframe
  rw [frames_update, hframe]
  split
  · exact ⟨_, rfl, rfl⟩
  · exact ⟨frame, rfl, rfl⟩

theorem retains_push (store : Store) (frame : Frame) : store.Retains (store.push frame) := by
  intro other older holder
  rw [frames_push, if_neg (Nat.ne_of_lt (lt_nextFrame_of_frame holder))]
  exact ⟨older, holder, rfl⟩

theorem Forest.update (hforest : store.Forest) (id : FrameId)
    (change : Bindings Value → Bindings Value) : (store.update id change).Forest := by
  intro other frame outer hframe houter
  rw [frames_update] at hframe
  split at hframe
  · obtain ⟨older, holder, rfl⟩ := Option.map_eq_some_iff.mp hframe
    exact hforest other older outer holder houter
  · exact hforest other frame outer hframe houter

theorem Forest.push (hforest : store.Forest) {frame : Frame}
    (hframe : ∀ outer, frame.enclosing = some outer → outer < store.nextFrame) :
    (store.push frame).Forest := by
  intro id found outer hfound houter
  rw [frames_push] at hfound
  split at hfound
  · next hid =>
    cases hfound
    exact hid ▸ hframe outer houter
  · exact hforest id found outer hfound houter

theorem own?_clear (store : Store) (id other : FrameId) (name : String) :
    (store.clear id).own? other name = if other = id then none else store.own? other name := by
  rw [own?, clear, frames_update]
  split
  · cases store.frames[other]? <;> rfl
  · rfl

end KawaiiLang.Store
