import Mathlib
import KawaiiLang.Proofs.Scope.Forest
import KawaiiLang.Scope.Handles

namespace KawaiiLang.Handles

/-- What can be done with scopes through their handles. -/
inductive Operation where
  | root
  | child (handle : Nat)
  | share (handle : Nat)
  | define (handle : Nat) (name : String) (value : Value)
  | assign (handle : Nat) (name : String) (value : Value)
  | clear (handle : Nat)
  | get (handle : Nat) (name : String)

/-- The scopes after an operation. An assignment that finds no binding leaves them as they are,
    and so does a lookup. -/
def perform (handles : Handles) : Operation → Handles
  | .root => handles.root
  | .child handle => handles.child handle
  | .share handle => handles.share handle
  | .define handle name value => handles.define handle name value
  | .assign handle name value => (handles.assign? handle name value).getD handles
  | .clear handle => handles.clear handle
  | .get _ _ => handles

/-- The scopes after some operations, if there were none at first. -/
def after (operations : List Operation) : Handles :=
  operations.foldl perform {}

/-- A change to the bindings of one frame. -/
inductive Change where
  | bound (frame : FrameId) (name : String) (value : Value)
  | cleared (frame : FrameId)

namespace Change

def frame : Change → FrameId
  | bound frame _ _ | cleared frame => frame

/-- The change decides what `frame` binds `name` to. -/
def Touches (frame : FrameId) (name : String) : Change → Prop
  | bound home key _ => frame = home ∧ name = key
  | cleared home => frame = home

instance (frame : FrameId) (name : String) : DecidablePred (Touches frame name)
  | bound .. => inferInstanceAs (Decidable (_ ∧ _))
  | cleared _ => inferInstanceAs (Decidable (_ = _))

/-- What is bound afterwards where the change decides it. -/
def value? : Change → Option Value
  | bound _ _ value => some value
  | cleared _ => none

def apply (store : Store) : Change → Store
  | bound frame name value => store.define frame name value
  | cleared frame => store.clear frame

theorem Touches.frame_eq {change : Change} {frame : FrameId} {name : String}
    (htouches : change.Touches frame name) : frame = change.frame := by
  cases change with
  | bound => exact htouches.1
  | cleared => exact htouches

theorem own?_apply {change : Change} {store : Store} (hframe : change.frame < store.nextFrame)
    (frame : FrameId) (name : String) :
    (change.apply store).own? frame name =
      if change.Touches frame name then change.value? else store.own? frame name := by
  cases change with
  | bound home key value => exact store.own?_define home frame key name value hframe
  | cleared home => exact store.own?_clear home frame name

theorem nextFrame_apply (change : Change) (store : Store) :
    (change.apply store).nextFrame = store.nextFrame := by
  cases change <;> exact store.nextFrame_update _ _

theorem forest_apply {store : Store} (hforest : store.Forest) (change : Change) :
    (change.apply store).Forest := by
  cases change <;> exact hforest.update _ _

theorem retains_apply (change : Change) (store : Store) : store.Retains (change.apply store) := by
  cases change <;> exact store.retains_update _ _

end Change

/-- The change that an operation makes, if it makes one. -/
def change? (handles : Handles) : Operation → Option Change
  | .define handle name value => (handles.frame? handle).map fun frame => .bound frame name value
  | .assign handle name value =>
    ((handles.frame? handle).bind fun frame => handles.store.resolve? frame name).map fun home =>
      .bound home name value
  | .clear handle => (handles.frame? handle).map .cleared
  | .root | .child _ | .share _ | .get _ _ => none

/-- The changes that operations make one after the other. -/
def changesFrom (handles : Handles) : List Operation → List Change
  | [] => []
  | operation :: operations =>
    (handles.change? operation).toList ++ changesFrom (handles.perform operation) operations

def changes (operations : List Operation) : List Change :=
  changesFrom {} operations

/-- Among some changes, the last one that decides what `frame` binds `name` to has bound it
    to `value`. -/
def LastBound (changes : List Change) (frame : FrameId) (name : String) (value : Value) : Prop :=
  ∃ earlier later, changes = earlier ++ .bound frame name value :: later ∧
    ∀ change ∈ later, ¬ change.Touches frame name

/-- A lookup through `handle` goes through the frames in `path`, one after the other. -/
def Sees (handles : Handles) (handle : Nat) (path : List FrameId) : Prop :=
  ∃ frame, handles.frame? handle = some frame ∧ handles.store.Chain frame path

/-- What is found through handles, once some changes have been made. -/
structure Explained (changes : List Change) (handles : Handles) : Prop where
  /-- No way outwards is endless, or comes to the same frame twice. -/
  sees : ∀ handle, (handles.frame? handle).isSome → ∃ path, handles.Sees handle path ∧ path.Nodup
  get? : ∀ handle path name, handles.Sees handle path →
    handles.get? handle name = path.findSome? fun frame => handles.store.own? frame name
  own? : ∀ frame name value, handles.store.own? frame name = some value ↔
    LastBound changes frame name value
  /-- A name can be assigned to just where it is found. -/
  assign? : ∀ handle name value,
    (handles.assign? handle name value).isSome = (handles.get? handle name).isSome

/-- What an operation does to the scopes, and what it leaves alone. -/
structure Follows (handles : Handles) (operation : Operation) : Prop where
  frame? : ∀ handle frame, handles.frame? handle = some frame →
    (handles.perform operation).frame? handle = some frame
  enclosing : handles.store.Retains (handles.perform operation).store
  /-- Where bindings change, neither a frame nor a handle is made. -/
  made : (handles.change? operation).isSome →
    (handles.perform operation).store.nextFrame = handles.store.nextFrame ∧
      (handles.perform operation).frames = handles.frames
  own? : ∀ frame name, (handles.perform operation).store.own? frame name =
    (handles.change? operation).elim (handles.store.own? frame name) fun change =>
      if change.Touches frame name then change.value? else handles.store.own? frame name
  /-- Another value is found only by a way that comes to the changed frame, and there is no
      binding in front of it. -/
  get? : ∀ handle path name, handles.Sees handle path →
    (handles.perform operation).get? handle name ≠ handles.get? handle name →
      ∃ change nearer farther, handles.change? operation = some change ∧
        path = nearer ++ change.frame :: farther ∧
        ∀ frame ∈ nearer, handles.store.own? frame name = none

/-- The frame that each operation is about. -/
structure Aims (handles : Handles) : Prop where
  root : handles.root.Sees handles.frames.size [handles.store.nextFrame]
  child : ∀ handle path, handles.Sees handle path →
    (handles.child handle).Sees handles.frames.size (handles.store.nextFrame :: path)
  share : ∀ handle path, handles.Sees handle path →
    (handles.share handle).Sees handles.frames.size path
  define : ∀ handle path name value, handles.Sees handle path →
    handles.change? (.define handle name value) = path.head?.map fun frame =>
      .bound frame name value
  clear : ∀ handle path, handles.Sees handle path →
    handles.change? (.clear handle) = path.head?.map .cleared
  assign : ∀ handle path name value, handles.Sees handle path →
    handles.change? (.assign handle name value) =
      (path.find? fun frame => (handles.store.own? frame name).isSome).map fun frame =>
        .bound frame name value
  /-- An assignment without a binding to change does not even make a frame. -/
  unassigned : ∀ handle name value, handles.get? handle name = none →
    handles.perform (.assign handle name value) = handles

/-- The frames lie one in the other, and each handle is onto one of them. -/
structure Formed (handles : Handles) : Prop where
  forest : handles.store.Forest
  frame? : ∀ handle frame, handles.frame? handle = some frame → frame < handles.store.nextFrame

variable {handles : Handles} {handle : Nat} {path : List FrameId}

theorem get?_of_frame {frame : FrameId} (hframe : handles.frame? handle = some frame)
    (name : String) : handles.get? handle name = handles.store.get? frame name := by
  rw [get?, hframe]
  rfl

theorem assign?_of_frame {frame : FrameId} (hframe : handles.frame? handle = some frame)
    (name : String) (value : Value) :
    handles.assign? handle name value =
      (handles.store.resolve? frame name).map fun home =>
        { handles with store := handles.store.define home name value } := by
  rw [assign?, hframe]
  cases hhome : handles.store.resolve? frame name <;> simp [Store.assign?, hhome]

theorem change?_assign_of_frame {frame : FrameId} (hframe : handles.frame? handle = some frame)
    (name : String) (value : Value) :
    handles.change? (.assign handle name value) =
      (handles.store.resolve? frame name).map fun home => .bound home name value := by
  rw [change?, hframe, Option.bind_some]

namespace Formed

theorem exists_sees (hformed : handles.Formed) (hhandle : (handles.frame? handle).isSome) :
    ∃ path, handles.Sees handle path := by
  obtain ⟨frame, hframe⟩ := Option.isSome_iff_exists.mp hhandle
  obtain ⟨path, hchain⟩ := hformed.forest.exists_chain (hformed.frame? handle frame hframe)
  exact ⟨path, frame, hframe, hchain⟩

theorem get?_eq (hformed : handles.Formed) (hsees : handles.Sees handle path) (name : String) :
    handles.get? handle name = path.findSome? fun frame => handles.store.own? frame name := by
  obtain ⟨frame, hframe, hchain⟩ := hsees
  rw [get?_of_frame hframe, hchain.get?_eq hformed.forest]

theorem isSome_assign? (hformed : handles.Formed) (handle : Nat) (name : String) (value : Value) :
    (handles.assign? handle name value).isSome = (handles.get? handle name).isSome := by
  cases hframe : handles.frame? handle with
  | none =>
    rw [assign?, get?, hframe]
    rfl
  | some frame =>
    obtain ⟨path, hchain⟩ := hformed.forest.exists_chain (hformed.frame? handle frame hframe)
    have hfound := hchain.isSome_assign? hformed.forest name value
    rw [Store.assign?, Option.isSome_map] at hfound
    rw [assign?_of_frame hframe, get?_of_frame hframe, Option.isSome_map, hfound]

/-- A binding is found in a frame that has been made. -/
theorem resolve?_lt (hformed : handles.Formed) {frame home : FrameId}
    (hframe : frame < handles.store.nextFrame) {name : String}
    (hhome : handles.store.resolve? frame name = some home) : home < handles.store.nextFrame := by
  obtain ⟨path, hchain⟩ := hformed.forest.exists_chain hframe
  rw [hchain.resolve?_eq hformed.forest] at hhome
  exact (hchain.le hformed.forest home (List.mem_of_find?_eq_some hhome)).trans_lt hframe

end Formed

/-- The ways in which an operation can come out. -/
inductive Performed (handles : Handles) : Option Change → Handles → Prop where
  | idle : Performed handles none handles
  | made {frame : Frame} (hempty : frame.bindings = .empty)
      (hframe : ∀ outer, frame.enclosing = some outer → outer < handles.store.nextFrame) :
      Performed handles none (handles.make frame)
  | shared {frame : FrameId} (hframe : frame < handles.store.nextFrame) :
      Performed handles none { handles with frames := handles.frames.push frame }
  | changed {change : Change} (hframe : change.frame < handles.store.nextFrame) :
      Performed handles (some change) { handles with store := change.apply handles.store }

theorem Formed.performed (hformed : handles.Formed) (operation : Operation) :
    Performed handles (handles.change? operation) (handles.perform operation) := by
  cases operation with
  | root => exact .made rfl (by simp)
  | child handle =>
    cases hframe : handles.frame? handle with
    | none =>
      simp only [perform, child, hframe]
      exact .idle
    | some frame =>
      have hold := hformed.frame? handle frame hframe
      simp only [perform, child, hframe]
      exact .made rfl (by simpa using hold)
  | share handle =>
    cases hframe : handles.frame? handle with
    | none =>
      simp only [perform, share, hframe]
      exact .idle
    | some frame =>
      simp only [perform, share, hframe]
      exact .shared (hformed.frame? handle frame hframe)
  | define handle name value =>
    cases hframe : handles.frame? handle with
    | none =>
      simp only [perform, define, change?, hframe]
      exact .idle
    | some frame =>
      simp only [perform, define, change?, hframe, Option.map_some]
      have hold := hformed.frame? handle frame hframe
      exact @Performed.changed handles (.bound frame name value) hold
  | assign handle name value =>
    cases hframe : handles.frame? handle with
    | none =>
      simp only [perform, assign?, change?, hframe]
      exact .idle
    | some frame =>
      rw [perform, assign?_of_frame hframe, change?_assign_of_frame hframe]
      cases hhome : handles.store.resolve? frame name with
      | none => exact .idle
      | some home =>
        have hlt := hformed.resolve?_lt (hformed.frame? handle frame hframe) hhome
        exact @Performed.changed handles (.bound home name value) hlt
  | clear handle =>
    cases hframe : handles.frame? handle with
    | none =>
      simp only [perform, clear, change?, hframe]
      exact .idle
    | some frame =>
      simp only [perform, clear, change?, hframe, Option.map_some]
      have hold := hformed.frame? handle frame hframe
      exact @Performed.changed handles (.cleared frame) hold
  | get => exact .idle

/-- One more handle does not change what the others are onto. -/
theorem frame?_of_push {final : Handles} {new : FrameId}
    (hfinal : final.frames = handles.frames.push new) {frame : FrameId}
    (hframe : handles.frame? handle = some frame) : final.frame? handle = some frame := by
  obtain ⟨hhandle, _⟩ := Array.getElem?_eq_some_iff.mp hframe
  rw [Handles.frame?, hfinal, Array.getElem?_push, if_neg hhandle.ne]
  exact hframe

theorem frame?_lt_of_push {final : Handles} {new : FrameId} {bound : Nat}
    (hfinal : final.frames = handles.frames.push new) (hnew : new < bound)
    (hframes : ∀ handle frame, handles.frame? handle = some frame → frame < bound)
    (handle : Nat) (frame : FrameId) (hframe : final.frame? handle = some frame) :
    frame < bound := by
  rw [Handles.frame?, hfinal, Array.getElem?_push] at hframe
  split at hframe
  · cases hframe
    exact hnew
  · exact hframes handle frame hframe

namespace Performed

variable {change : Option Change} {final : Handles}

theorem retains (hperformed : handles.Performed change final) :
    handles.store.Retains final.store := by
  cases hperformed with
  | idle | shared => exact fun _ frame hframe => ⟨frame, hframe, rfl⟩
  | made => exact handles.store.retains_push _
  | @changed change => exact change.retains_apply handles.store

theorem frame? (hperformed : handles.Performed change final) {frame : FrameId}
    (hframe : handles.frame? handle = some frame) : final.frame? handle = some frame := by
  cases hperformed with
  | idle | changed => exact hframe
  | made | shared => exact frame?_of_push rfl hframe

theorem formed (hperformed : handles.Performed change final) (hformed : handles.Formed) :
    final.Formed := by
  obtain ⟨hforest, hframes⟩ := hformed
  cases hperformed with
  | idle => exact ⟨hforest, hframes⟩
  | @made frame _ hframe =>
    have hnext : (handles.store.push frame).nextFrame = handles.store.nextFrame + 1 :=
      Array.size_push frame
    refine ⟨hforest.push hframe, ?_⟩
    change ∀ handle id, _ → id < (handles.store.push frame).nextFrame
    rw [hnext]
    refine frame?_lt_of_push rfl (Nat.lt_succ_self _) ?_
    intro handle id hid
    exact Nat.lt_succ_of_lt (hframes handle id hid)
  | shared hframe => exact ⟨hforest, frame?_lt_of_push rfl hframe hframes⟩
  | @changed change =>
    refine ⟨change.forest_apply hforest, ?_⟩
    intro handle frame hframe
    rw [change.nextFrame_apply]
    exact hframes handle frame hframe

theorem made_eq (hperformed : handles.Performed change final) (hchange : change.isSome) :
    final.store.nextFrame = handles.store.nextFrame ∧ final.frames = handles.frames := by
  cases hperformed with
  | idle | made | shared => cases hchange
  | @changed change => exact ⟨change.nextFrame_apply handles.store, rfl⟩

theorem own?_eq (hperformed : handles.Performed change final) (frame : FrameId) (name : String) :
    final.store.own? frame name =
      change.elim (handles.store.own? frame name) fun change =>
        if change.Touches frame name then change.value? else handles.store.own? frame name := by
  cases hperformed with
  | idle | shared => rfl
  | @made made hempty _ =>
    refine (handles.store.own?_push made frame name).trans ?_
    split
    · next hnew => rw [hempty, Bindings.find?_empty, hnew, Store.own?_nextFrame]; rfl
    · rfl
  | @changed change hframe => exact Change.own?_apply hframe frame name

end Performed

/-- Two lookups along one path that come out differently part at a place that neither of them
    has found anything in front of. -/
theorem findSome?_ne {f g : FrameId → Option Value} {path : List FrameId}
    (hne : path.findSome? f ≠ path.findSome? g) :
    ∃ nearer frame farther, path = nearer ++ frame :: farther ∧
      (∀ other ∈ nearer, g other = none) ∧ f frame ≠ g frame := by
  induction path with
  | nil => exact absurd rfl hne
  | cons first path ih =>
    by_cases hfirst : f first = g first
    · cases hfound : g first with
      | some value =>
        rw [List.findSome?_cons, List.findSome?_cons, hfirst, hfound] at hne
        exact absurd rfl hne
      | none =>
        rw [List.findSome?_cons, List.findSome?_cons, hfirst, hfound] at hne
        obtain ⟨nearer, frame, farther, rfl, hnearer, hframe⟩ := ih hne
        exact ⟨first :: nearer, frame, farther, rfl, List.forall_mem_cons.mpr ⟨hfound, hnearer⟩,
          hframe⟩
    · exact ⟨[], first, path, rfl, by simp, hfirst⟩

theorem Sees.performed {change : Option Change} {final : Handles}
    (hperformed : handles.Performed change final) (hsees : handles.Sees handle path) :
    final.Sees handle path := by
  obtain ⟨frame, hframe, hchain⟩ := hsees
  exact ⟨frame, hperformed.frame? hframe, hchain.retained hperformed.retains⟩

/-- What one operation does, whatever there was before. -/
theorem Formed.follows (hformed : handles.Formed) (operation : Operation) :
    handles.Follows operation := by
  have hperformed := hformed.performed operation
  refine ⟨fun _ _ => hperformed.frame?, hperformed.retains, hperformed.made_eq,
    hperformed.own?_eq, ?_⟩
  intro handle path name hsees hne
  have hfinal := hperformed.formed hformed
  rw [hfinal.get?_eq (hsees.performed hperformed), hformed.get?_eq hsees] at hne
  obtain ⟨nearer, frame, farther, rfl, hnearer, hframe⟩ := findSome?_ne hne
  rw [hperformed.own?_eq] at hframe
  cases hchange : handles.change? operation with
  | none => simp [hchange] at hframe
  | some change =>
    rw [hchange] at hframe
    have htouches : change.Touches frame name := by
      by_contra hnot
      exact hframe (if_neg hnot)
    exact ⟨change, nearer, farther, rfl, htouches.frame_eq ▸ rfl, hnearer⟩

theorem frame?_make (handles : Handles) (frame : Frame) :
    (handles.make frame).frame? handles.frames.size = some handles.store.nextFrame :=
  Array.getElem?_push_size

theorem frame_make (handles : Handles) (frame : Frame) :
    (handles.make frame).store.frames[handles.store.nextFrame]? = some frame :=
  (handles.store.frames_push frame _).trans (if_pos rfl)

theorem Formed.aims (hformed : handles.Formed) : handles.Aims where
  root :=
    ⟨_, handles.frame?_make {}, .root (handles.frame_make {}) rfl⟩
  child := by
    rintro handle path ⟨frame, hframe, hchain⟩
    have hretains := handles.store.retains_push { enclosing := some frame }
    rw [child, hframe]
    exact ⟨_, handles.frame?_make _, .inside (handles.frame_make _) rfl (hchain.retained hretains)⟩
  share := by
    rintro handle path ⟨frame, hframe, hchain⟩
    rw [share, hframe]
    exact ⟨frame, Array.getElem?_push_size, hchain⟩
  define := by
    rintro handle path name value ⟨frame, hframe, hchain⟩
    rw [change?, hframe, hchain.head?_eq]
  clear := by
    rintro handle path ⟨frame, hframe, hchain⟩
    rw [change?, hframe, hchain.head?_eq]
  assign := by
    rintro handle path name value ⟨frame, hframe, hchain⟩
    rw [change?_assign_of_frame hframe, hchain.resolve?_eq hformed.forest]
  unassigned := by
    intro handle name value hunbound
    have hnone := hformed.isSome_assign? handle name value
    rw [hunbound, Option.isSome_none, Option.isSome_eq_false_iff, Option.isNone_iff_eq_none]
      at hnone
    rw [perform, hnone, Option.getD_none]

theorem lastBound_append (changes : List Change) (change : Change) (frame : FrameId)
    (name : String) (value : Value) :
    LastBound (changes ++ [change]) frame name value ↔
      if change.Touches frame name then change.value? = some value
      else LastBound changes frame name value := by
  constructor
  · rintro ⟨earlier, later, hsplit, hlater⟩
    obtain rfl | ⟨later, last, rfl⟩ := later.eq_nil_or_concat
    · obtain ⟨_, hlast⟩ := List.append_inj' hsplit rfl
      obtain rfl := List.singleton_inj.mp hlast
      exact (if_pos ⟨rfl, rfl⟩).mpr rfl
    · rw [List.concat_eq_append] at hsplit hlater
      rw [← List.cons_append, ← List.append_assoc] at hsplit
      obtain ⟨rfl, hlast⟩ := List.append_inj' hsplit rfl
      obtain rfl := List.singleton_inj.mp hlast
      rw [if_neg (hlater change (by simp))]
      exact ⟨earlier, later, rfl, fun other hother => hlater other (by simp [hother])⟩
  · intro hlast
    split at hlast
    · next htouches =>
      cases change with
      | bound home key newest =>
        obtain ⟨rfl, rfl⟩ := htouches
        obtain rfl := Option.some.inj hlast
        exact ⟨changes, [], rfl, by simp⟩
      | cleared => cases hlast
    · next hnot =>
      obtain ⟨earlier, later, rfl, hlater⟩ := hlast
      refine ⟨earlier, later ++ [change], by simp, ?_⟩
      intro other hother
      obtain hother | hother := List.mem_append.mp hother
      · exact hlater other hother
      · exact List.mem_singleton.mp hother ▸ hnot

theorem after_append (operations : List Operation) (operation : Operation) :
    after (operations ++ [operation]) = (after operations).perform operation :=
  List.foldl_append

theorem changesFrom_append (handles : Handles) (operations : List Operation)
    (operation : Operation) :
    handles.changesFrom (operations ++ [operation]) = handles.changesFrom operations ++
      ((operations.foldl perform handles).change? operation).toList := by
  induction operations generalizing handles with
  | nil => simp [changesFrom]
  | cons first operations ih =>
    rw [List.cons_append, changesFrom, ih, changesFrom, List.append_assoc, List.foldl_cons]

theorem changes_append (operations : List Operation) (operation : Operation) :
    changes (operations ++ [operation]) =
      changes operations ++ ((after operations).change? operation).toList :=
  changesFrom_append {} operations operation

theorem formed_after (operations : List Operation) : (after operations).Formed := by
  induction operations using List.reverseRecOn with
  | nil => exact ⟨by simp [after, Store.Forest], by simp [after, Handles.frame?]⟩
  | append_singleton operations operation ih =>
    rw [after_append]
    exact (ih.performed operation).formed ih

/-- A frame binds a name to what was last written there and has not been dropped since. -/
theorem own?_after_iff (operations : List Operation) (frame : FrameId) (name : String)
    (value : Value) :
    (after operations).store.own? frame name = some value ↔
      LastBound (changes operations) frame name value := by
  induction operations using List.reverseRecOn with
  | nil => simp [after, changes, changesFrom, LastBound, Store.own?]
  | append_singleton operations operation ih =>
    have hperformed := (formed_after operations).performed operation
    rw [after_append, hperformed.own?_eq, changes_append]
    cases (after operations).change? operation with
    | none => rw [Option.elim_none, Option.toList_none, List.append_nil, ih]
    | some change =>
      rw [Option.elim_some, Option.toList_some, lastBound_append, ← ih]
      split <;> rfl

/-- What some operations have come to, and what one more would do. -/
theorem nearest_binding (operations : List Operation) :
    Explained (changes operations) (after operations) ∧ (after operations).Aims ∧
      ∀ operation, (after operations).Follows operation := by
  have hformed := formed_after operations
  refine ⟨⟨?_, ?_, own?_after_iff operations, hformed.isSome_assign?⟩, hformed.aims,
    hformed.follows⟩
  · intro handle hhandle
    obtain ⟨path, frame, hframe, hchain⟩ := hformed.exists_sees hhandle
    exact ⟨path, ⟨frame, hframe, hchain⟩, hchain.nodup hformed.forest⟩
  · intro handle path name hsees
    exact hformed.get?_eq hsees name

end KawaiiLang.Handles
