import Mathlib.Data.List.Forall2
import KawaiiLang.Scope.Store

namespace KawaiiLang

namespace Bindings

variable {α : Type}

/-- A name that is bound by pairs is bound to the value of one of them. -/
theorem mem_of_find?_insertAll {bindings : Bindings α} {pairs : List (String × α)} {name : String}
    {value : α} (hfind : (bindings.insertAll pairs).find? name = some value) :
    (name, value) ∈ pairs ∨ bindings.find? name = some value := by
  induction pairs generalizing bindings with
  | nil => exact .inr hfind
  | cons pair pairs ih =>
    obtain hmem | hfind := ih hfind
    · exact .inl (List.mem_cons_of_mem _ hmem)
    · rw [find?_insert] at hfind
      split at hfind
      · next hname =>
        cases hfind
        exact .inl (hname ▸ List.mem_cons_self)
      · exact .inr hfind

/-- A name that is not among those that are bound keeps its value. -/
theorem find?_insertAll_zip_of_not_mem {names : List String} {name : String} (hname : name ∉ names)
    (values : List α) (bindings : Bindings α) :
    (bindings.insertAll (names.zip values)).find? name = bindings.find? name := by
  induction names generalizing values bindings with
  | nil => rfl
  | cons first names ih =>
    obtain ⟨hfirst, hnames⟩ := not_or.mp (mt List.mem_cons.mpr hname)
    cases values with
    | nil => rfl
    | cons value values =>
      refine (ih hnames values _).trans ?_
      rw [find?_insert, if_neg hfirst]

/-- Of distinct names each is bound to its own value. -/
theorem find?_insertAll_zip {names : List String} {values : List α} (hdistinct : names.Nodup)
    (hlength : names.length = values.length) {index : Nat} {name : String}
    (hname : names[index]? = some name) (bindings : Bindings α) :
    (bindings.insertAll (names.zip values)).find? name = values[index]? := by
  induction names generalizing values index bindings with
  | nil => cases hname
  | cons first names ih =>
    obtain ⟨hfirst, hnames⟩ := List.nodup_cons.mp hdistinct
    cases values with
    | nil => cases hlength
    | cons value values =>
      cases index with
      | zero =>
        cases hname
        refine (find?_insertAll_zip_of_not_mem hfirst values _).trans ?_
        rw [find?_insert, if_pos rfl, List.getElem?_cons_zero]
      | succ index => exact ih hnames (Nat.succ.inj hlength) hname _

/-- Names that are bound to related values one after the other are bound to related values
    in the end. -/
theorem find?_insertAll_rel {relation : α → α → Prop} {values values' : List α}
    (hvalues : List.Forall₂ relation values values') (names : List String)
    {bindings bindings' : Bindings α}
    (hbindings : ∀ name, Option.Rel relation (bindings.find? name) (bindings'.find? name))
    (name : String) :
    Option.Rel relation ((bindings.insertAll (names.zip values)).find? name)
      ((bindings'.insertAll (names.zip values')).find? name) := by
  induction hvalues generalizing names bindings bindings' with
  | nil =>
    rw [List.zip_nil_right]
    exact hbindings name
  | cons hvalue _ ih =>
    cases names with
    | nil => exact hbindings name
    | cons first names =>
      refine ih names ?_
      intro key
      rw [find?_insert, find?_insert]
      split
      · exact .some hvalue
      · exact hbindings key

end Bindings

namespace Store

theorem frames_update (store : Store) (id other : FrameId)
    (change : Bindings Value → Bindings Value) :
    (store.update id change).frames[other]? =
      if other = id then
        store.frames[other]?.map fun frame => { frame with bindings := change frame.bindings }
      else store.frames[other]? := by
  simp only [update, Array.getElem?_modify, eq_comm]

theorem nextFrame_update (store : Store) (id : FrameId)
    (change : Bindings Value → Bindings Value) :
    (store.update id change).nextFrame = store.nextFrame :=
  Array.size_modify

theorem nextFrame_assign? (store : Store) (id : FrameId) (name : String) (value : Value) :
    ((store.assign? id name value).getD store).nextFrame = store.nextFrame := by
  unfold assign?
  cases store.resolve? id name with
  | none => rfl
  | some home => exact nextFrame_update store home (·.insert name value)

theorem frames_push (store : Store) (frame : Frame) (id : FrameId) :
    (store.push frame).frames[id]? =
      if id = store.nextFrame then some frame else store.frames[id]? :=
  Array.getElem?_push

theorem own?_push (store : Store) (frame : Frame) (id : FrameId) (name : String) :
    (store.push frame).own? id name =
      if id = store.nextFrame then frame.bindings.find? name else store.own? id name := by
  rw [own?, frames_push]
  split <;> rfl

theorem own?_of_frame {store : Store} {id : FrameId} {frame : Frame}
    (hframe : store.frames[id]? = some frame) (name : String) :
    store.own? id name = frame.bindings.find? name := by
  rw [own?, hframe, Option.bind_some]

/-- What a frame does not bind itself is looked up in the frame around it. -/
theorem get?_of_enclosing {store : Store} {id outer : FrameId} {frame : Frame}
    (hframe : store.frames[id]? = some frame) (houter : frame.enclosing = some outer)
    (hless : outer < id) (name : String) :
    store.get? id name = (store.own? id name).or (store.get? outer name) := by
  rw [get?, get?, resolve?, hframe, own?_of_frame hframe]
  cases hfind : frame.bindings.find? name with
  | none => simp [hfind, houter, hless]
  | some value => simp [own?_of_frame hframe, hfind]

/-- A frame around which there is no other has only its own bindings. -/
theorem get?_of_root {store : Store} {id : FrameId} {frame : Frame}
    (hframe : store.frames[id]? = some frame) (hroot : frame.enclosing = none) (name : String) :
    store.get? id name = store.own? id name := by
  rw [get?, resolve?, hframe, own?_of_frame hframe]
  cases hfind : frame.bindings.find? name with
  | none => simp [hfind, hroot]
  | some value => simp [own?_of_frame hframe, hfind]

/-- A name that a frame binds itself is bound anew there. -/
theorem assign?_of_own {store : Store} {id : FrameId} {name : String} {current : Value}
    (hown : store.own? id name = some current) (value : Value) :
    store.assign? id name value = some (store.define id name value) := by
  obtain ⟨frame, hframe, hfind⟩ := Option.bind_eq_some_iff.mp hown
  rw [assign?, resolve?]
  simp only [hframe, hfind, Option.map_some]

end Store
end KawaiiLang
