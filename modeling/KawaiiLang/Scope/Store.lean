import KawaiiLang.Scope.Bindings
import KawaiiLang.Value.Basic

namespace KawaiiLang

/-- One level of scope: its own bindings, and the frame around it. -/
structure Frame where
  bindings : Bindings Value := {}
  enclosing : Option FrameId := none
  deriving Inhabited

/-- The frames that have been made, each found under its number, and the stamps
    given to functions so far. A frame can only be made inside an older one, so the
    frames form a forest. -/
structure Store where
  frames : Array Frame := #[]
  /-- The stamp of the next function. -/
  nextStamp : Nat := 0
  deriving Inhabited

namespace Store

/-- The number that the next frame will have. -/
def nextFrame (store : Store) : FrameId :=
  store.frames.size

/-- Makes a frame. -/
def push (store : Store) (frame : Frame) : Store :=
  { store with frames := store.frames.push frame }

/-- Gives up the youngest frame. -/
def pop (store : Store) : Store :=
  { store with frames := store.frames.pop }

/-- The value that the frame `id` itself gives to `name`. -/
def own? (store : Store) (id : FrameId) (name : String) : Option Value :=
  (store.frames[id]?).bind fun frame => frame.bindings.find? name

/-- The frame nearest to `id` on the way outwards that binds `name`. A frame is
    younger than the one around it, which is why the way ends. -/
def resolve? (store : Store) (id : FrameId) (name : String) : Option FrameId :=
  match store.frames[id]? with
  | none => none
  | some frame =>
    match frame.bindings.find? name with
    | some _ => some id
    | none =>
      match frame.enclosing with
      | none => none
      | some outer => if outer < id then store.resolve? outer name else none
termination_by id

/-- The value of `name` seen from the frame `id`. -/
def get? (store : Store) (id : FrameId) (name : String) : Option Value :=
  (store.resolve? id name).bind fun home => store.own? home name

/-- Changes the bindings of one frame. -/
def update (store : Store) (id : FrameId) (change : Bindings Value → Bindings Value) : Store :=
  { store with
    frames := store.frames.modify id fun frame =>
      { frame with bindings := change frame.bindings } }

/-- Binds `name` in the frame `id` itself, in front of any binding further out. -/
def define (store : Store) (id : FrameId) (name : String) (value : Value) : Store :=
  store.update id (·.insert name value)

/-- Binds `name` anew in the frame where it is found from `id`; nothing if no frame
    binds it. -/
def assign? (store : Store) (id : FrameId) (name : String) (value : Value) : Option Store :=
  (store.resolve? id name).map fun home => store.define home name value

/-- Drops all bindings of the frame `id`. -/
def clear (store : Store) (id : FrameId) : Store :=
  store.update id fun _ => .empty

/-- Makes a function that differs from all functions made before. -/
def close (store : Store) (name : String) (params : List String) (body : List Stmt)
    (home : FrameId) : Closure × Store :=
  ({ stamp := store.nextStamp, name, params, body, home },
    { store with nextStamp := store.nextStamp + 1 })

/-- The frame `id` in short: the names it binds itself and whether it lies inside
    another frame. -/
def summary (store : Store) (id : FrameId) : String :=
  let frame := store.frames[id]?.getD {}
  "Environment \x7b names: " ++ Text.quotedList frame.bindings.names ++ ", enclosed: " ++
    toString frame.enclosing.isSome ++ " \x7d"

/-- Binding a name shows in its own frame under that name, and nowhere else. -/
theorem own?_define (store : Store) (id other : FrameId) (name key : String) (value : Value)
    (hid : id < store.frames.size) :
    (store.define id name value).own? other key =
      if other = id ∧ key = name then some value else store.own? other key := by
  by_cases hother : other = id
  · subst hother
    simp only [own?, define, update, Array.getElem?_modify, if_true, true_and,
      Array.getElem?_eq_getElem hid, Option.map_some, Option.bind_some, Bindings.find?_insert]
  · have hne : id ≠ other := fun h => hother h.symm
    simp [own?, define, update, Array.getElem?_modify, hother, hne]

end Store
end KawaiiLang
