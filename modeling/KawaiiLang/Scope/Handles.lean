import KawaiiLang.Scope.Store

namespace KawaiiLang

/-- Scopes as a caller holds them: numbered handles, each onto a frame of one store.
    Several handles may share a frame. An operation on a number that was never
    handed out does nothing. -/
structure Handles where
  store : Store := {}
  frames : Array FrameId := #[]
  deriving Inhabited

namespace Handles

/-- The frame behind a handle. -/
def frame? (handles : Handles) (handle : Nat) : Option FrameId :=
  handles.frames[handle]?

/-- A handle onto a new frame. -/
def make (handles : Handles) (frame : Frame) : Handles :=
  ⟨handles.store.push frame, handles.frames.push handles.store.nextFrame⟩

/-- A handle onto a new frame that lies in no other. -/
def root (handles : Handles) : Handles :=
  handles.make {}

/-- A handle onto a new frame inside that of `handle`. -/
def child (handles : Handles) (handle : Nat) : Handles :=
  match handles.frame? handle with
  | some id => handles.make { enclosing := some id }
  | none => handles

/-- One more handle onto the frame of `handle`. -/
def share (handles : Handles) (handle : Nat) : Handles :=
  match handles.frame? handle with
  | some id => { handles with frames := handles.frames.push id }
  | none => handles

/-- Binds `name` in the frame of `handle`. -/
def define (handles : Handles) (handle : Nat) (name : String) (value : Value) : Handles :=
  match handles.frame? handle with
  | some id => { handles with store := handles.store.define id name value }
  | none => handles

/-- Binds `name` anew where it is found from `handle`; nothing if it is not found. -/
def assign? (handles : Handles) (handle : Nat) (name : String) (value : Value) :
    Option Handles := do
  let id ← handles.frame? handle
  let store ← handles.store.assign? id name value
  return { handles with store }

/-- The value of `name` seen through `handle`. -/
def get? (handles : Handles) (handle : Nat) (name : String) : Option Value := do
  handles.store.get? (← handles.frame? handle) name

/-- Drops all bindings of the frame of `handle`. -/
def clear (handles : Handles) (handle : Nat) : Handles :=
  match handles.frame? handle with
  | some id => { handles with store := handles.store.clear id }
  | none => handles

/-- The frame of `handle` in short. -/
def summary (handles : Handles) (handle : Nat) : String :=
  handles.store.summary ((handles.frame? handle).getD handles.store.nextFrame)

end Handles
end KawaiiLang
