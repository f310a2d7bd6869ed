import KawaiiLang.Proofs.Computation

namespace KawaiiLang

/-- What two computations that run side by side agree on: which errors are alike, and which
    states. -/
structure Likeness (ε σ : Type) where
  errors : ε → ε → Prop
  states : σ → σ → Prop

namespace Likeness

variable {ε σ α β γ δ : Type} {likeness : Likeness ε σ}

/-- Two results are alike: both are values that belong together or both are errors that are
    alike, and so are the states. -/
inductive Results (likeness : Likeness ε σ) (values : α → β → Prop) :
    EStateM.Result ε σ α → EStateM.Result ε σ β → Prop where
  | ok {value : α} {value' : β} {state state' : σ} (hvalue : values value value')
      (hstate : likeness.states state state') :
      Results likeness values (.ok value state) (.ok value' state')
  | error {error error' : ε} {state state' : σ} (herror : likeness.errors error error')
      (hstate : likeness.states state state') :
      Results likeness values (.error error state) (.error error' state')

/-- Two computations go in lockstep: from states that are alike they end alike. -/
def Lockstep (likeness : Likeness ε σ) (values : α → β → Prop) (left : EStateM ε σ α)
    (right : EStateM ε σ β) : Prop :=
  ∀ state state', likeness.states state state' →
    likeness.Results values (left state) (right state')

theorem lockstep_pure {values : α → β → Prop} {value : α} {value' : β}
    (hvalue : values value value') : likeness.Lockstep values (pure value) (pure value') :=
  fun _ _ hstate => .ok hvalue hstate

theorem lockstep_throw {values : α → β → Prop} {error error' : ε}
    (herror : likeness.errors error error') :
    likeness.Lockstep values (throw error) (throw error') :=
  fun _ _ hstate => .error herror hstate

theorem lockstep_get : likeness.Lockstep likeness.states get get :=
  fun _ _ hstate => .ok hstate hstate

theorem Lockstep.bind {values : α → β → Prop} {results : γ → δ → Prop} {left : EStateM ε σ α}
    {right : EStateM ε σ β} {next : α → EStateM ε σ γ} {next' : β → EStateM ε σ δ}
    (hstep : likeness.Lockstep values left right)
    (hnext : ∀ value value', values value value' →
      likeness.Lockstep results (next value) (next' value')) :
    likeness.Lockstep results (left >>= next) (right >>= next') := by
  intro state state' hstate
  have hmiddle := hstep state state' hstate
  generalize hleft : left state = result at hmiddle
  generalize hright : right state' = result' at hmiddle
  cases hmiddle with
  | ok hvalue hmiddle =>
    rw [bind_of_eq_ok hleft, bind_of_eq_ok hright]
    exact hnext _ _ hvalue _ _ hmiddle
  | error herror hmiddle =>
    rw [bind_of_eq_error hleft, bind_of_eq_error hright]
    exact .error herror hmiddle

end Likeness
end KawaiiLang
