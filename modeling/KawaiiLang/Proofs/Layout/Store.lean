import KawaiiLang.Eval.Operator
import KawaiiLang.Proofs.Layout.Syntax
import KawaiiLang.Proofs.Scope.Store

namespace KawaiiLang

/-- The same function, up to the places its body was read from. -/
structure Closure.Relocated (first second : Closure) : Prop where
  stamp : first.stamp = second.stamp
  name : first.name = second.name
  params : first.params = second.params
  body : List.Forall₂ Stmt.Relocated first.body second.body
  home : first.home = second.home

namespace Value

/-- The same value, up to the places that bodies of functions were read from. -/
inductive Relocated : Value → Value → Prop where
  | plain {value : Value} (htype : value.type ≠ .function) : Relocated value value
  | function {first second : Closure} (hclosure : first.Relocated second) :
      Relocated (.function first) (.function second)

/-- The value without the body of a function, which only a call can see. -/
def bodiless : Value → Value
  | function closure => function { closure with body := [] }
  | value => value

variable {first second third fourth : Value}

theorem Relocated.bodiless_eq (hvalue : first.Relocated second) :
    first.bodiless = second.bodiless := by
  cases hvalue with
  | plain => rfl
  | @function first second hclosure =>
    obtain ⟨stamp, name, params, body, home⟩ := first
    obtain ⟨rfl, rfl, rfl, _, rfl⟩ := hclosure
    rfl

/-- What does not see the bodies of functions does not see where they were read from. -/
theorem Relocated.apply_eq {α : Type} (hvalue : first.Relocated second) (operate : Value → α)
    (hoperate : ∀ value, operate value = operate value.bodiless) :
    operate first = operate second := by
  rw [hoperate first, hoperate second, hvalue.bodiless_eq]

theorem Relocated.isTruthy_eq (hvalue : first.Relocated second) :
    first.isTruthy = second.isTruthy :=
  hvalue.apply_eq isTruthy fun value => by cases value <;> rfl

theorem Relocated.display_eq (hvalue : first.Relocated second) : first.display = second.display :=
  hvalue.apply_eq display fun value => by cases value <;> rfl

end Value

theorem UnaryOp.apply_eq_of_relocated {first second : Value} (op : UnaryOp)
    (hvalue : first.Relocated second) : op.apply first = op.apply second :=
  hvalue.apply_eq op.apply fun value => by cases op <;> cases value <;> rfl

theorem UpdateOp.apply_eq_of_relocated {first second : Value} (op : UpdateOp) (name : String)
    (hvalue : first.Relocated second) : op.apply name first = op.apply name second :=
  hvalue.apply_eq (op.apply name) fun value => by cases value <;> rfl

theorem BinaryOp.apply_eq_of_relocated {left left' right right' : Value} (op : BinaryOp)
    (hleft : left.Relocated left') (hright : right.Relocated right') :
    op.apply left right = op.apply left' right' :=
  calc
    op.apply left right = op.apply left' right :=
      hleft.apply_eq (op.apply · right) fun value => by
        cases op <;> cases value <;> cases right <;> rfl
    _ = op.apply left' right' :=
      hright.apply_eq (op.apply left') fun value => by
        cases op <;> cases left' <;> cases value <;> rfl

/-- The same frame, with the same values under the same names. -/
structure Frame.Relocated (first second : Frame) : Prop where
  find (name : String) :
    Option.Rel Value.Relocated (first.bindings.find? name) (second.bindings.find? name)
  enclosing : first.enclosing = second.enclosing

/-- The same frames under the same numbers. -/
structure Store.Relocated (first second : Store) : Prop where
  size : first.nextFrame = second.nextFrame
  frame (id : FrameId) : Option.Rel Frame.Relocated first.frames[id]? second.frames[id]?
  nextStamp : first.nextStamp = second.nextStamp

namespace Store.Relocated

variable {first second : Store}

theorem own (hstore : first.Relocated second) (id : FrameId) (name : String) :
    Option.Rel Value.Relocated (first.own? id name) (second.own? id name) := by
  have hframe := hstore.frame id
  unfold own?
  generalize first.frames[id]? = frame at hframe
  generalize second.frames[id]? = frame' at hframe
  cases hframe with
  | none => exact .none
  | some hframe => exact hframe.find name

/-- A name is found in the same frame: by induction on the number of the frame, which
    decreases on the way outwards. -/
theorem resolve_eq (hstore : first.Relocated second) (id : FrameId) (name : String) :
    first.resolve? id name = second.resolve? id name := by
  induction id using Nat.strongRecOn with
  | ind id ih =>
    have hframe := hstore.frame id
    rw [resolve?, resolve?]
    generalize first.frames[id]? = frame at hframe
    generalize second.frames[id]? = frame' at hframe
    cases hframe with
    | none => rfl
    | @some frame frame' hframe =>
      have hfind := hframe.find name
      dsimp only
      rw [hframe.enclosing]
      generalize frame.bindings.find? name = value at hfind
      generalize frame'.bindings.find? name = value' at hfind
      cases hfind with
      | some => rfl
      | none =>
        cases frame'.enclosing with
        | none => rfl
        | some outer =>
          dsimp only
          split
          · next hless => exact ih outer hless
          · rfl

theorem get (hstore : first.Relocated second) (id : FrameId) (name : String) :
    Option.Rel Value.Relocated (first.get? id name) (second.get? id name) := by
  unfold get?
  rw [hstore.resolve_eq]
  cases second.resolve? id name with
  | none => exact .none
  | some home => exact hstore.own home name

theorem push (hstore : first.Relocated second) {frame frame' : Frame}
    (hframe : frame.Relocated frame') : (first.push frame).Relocated (second.push frame') where
  size := by
    have hsize : first.frames.size = second.frames.size := hstore.size
    simp only [nextFrame, Store.push, Array.size_push, hsize]
  frame id := by
    rw [frames_push, frames_push, hstore.size]
    split
    · exact .some hframe
    · exact hstore.frame id
  nextStamp := hstore.nextStamp

theorem pop (hstore : first.Relocated second) : first.pop.Relocated second.pop where
  size := by
    have hsize : first.frames.size = second.frames.size := hstore.size
    simp only [nextFrame, Store.pop, Array.size_pop, hsize]
  frame id := by
    have hsize : first.frames.size = second.frames.size := hstore.size
    simp only [Store.pop, Array.getElem?_pop, hsize]
    split
    · exact hstore.frame id
    · exact .none
  nextStamp := hstore.nextStamp

theorem define (hstore : first.Relocated second) (id : FrameId) (name : String)
    {value value' : Value} (hvalue : value.Relocated value') :
    (first.define id name value).Relocated (second.define id name value') where
  size := by
    unfold Store.define
    rw [nextFrame_update, nextFrame_update, hstore.size]
  frame other := by
    have hframe := hstore.frame other
    unfold Store.define
    rw [frames_update, frames_update]
    split
    · generalize first.frames[other]? = frame at hframe
      generalize second.frames[other]? = frame' at hframe
      cases hframe with
      | none => exact .none
      | some hframe =>
        refine .some ⟨?_, hframe.enclosing⟩
        intro key
        rw [Bindings.find?_insert, Bindings.find?_insert]
        split
        · exact .some hvalue
        · exact hframe.find key
    · exact hframe
  nextStamp := hstore.nextStamp

theorem assign (hstore : first.Relocated second) (id : FrameId) (name : String)
    {value value' : Value} (hvalue : value.Relocated value') :
    ((first.assign? id name value).getD first).Relocated
      ((second.assign? id name value').getD second) := by
  unfold assign?
  rw [hstore.resolve_eq]
  cases second.resolve? id name with
  | none => exact hstore
  | some home => exact hstore.define home name hvalue

end Store.Relocated
end KawaiiLang
