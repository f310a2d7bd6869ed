namespace KawaiiLang

variable {ε σ α β : Type}

/-- A sequence ends well exactly if both of its steps do. -/
theorem bind_eq_ok_iff {step : EStateM ε σ α} {next : α → EStateM ε σ β} {state final : σ} {b : β} :
    (step >>= next) state = .ok b final ↔
      ∃ a middle, step state = .ok a middle ∧ next a middle = .ok b final := by
  change EStateM.bind step next state = _ ↔ _
  unfold EStateM.bind
  cases hstep : step state with
  | ok a middle =>
    constructor
    · intro hnext
      exact ⟨a, middle, rfl, hnext⟩
    · rintro ⟨_, _, hfirst, hnext⟩
      cases hfirst
      exact hnext
  | error error middle => simp

theorem bind_of_eq_ok {step : EStateM ε σ α} {state middle : σ} {a : α}
    (hstep : step state = .ok a middle) (next : α → EStateM ε σ β) :
    (step >>= next) state = next a middle := by
  change EStateM.bind step next state = _
  simp only [EStateM.bind, hstep]

theorem bind_of_eq_error {step : EStateM ε σ α} {state middle : σ} {error : ε}
    (hstep : step state = .error error middle) (next : α → EStateM ε σ β) :
    (step >>= next) state = .error error middle := by
  change EStateM.bind step next state = _
  simp only [EStateM.bind, hstep]

/-- Two sequences do the same from a state on if their first steps do, and what follows does
    from where these end. -/
theorem bind_congr_of_eq {step step' : EStateM ε σ α} {next next' : α → EStateM ε σ β} {state : σ}
    (hstep : step state = step' state)
    (hnext : ∀ a middle, step state = .ok a middle → next a middle = next' a middle) :
    (step >>= next) state = (step' >>= next') state := by
  cases hresult : step state with
  | ok a middle =>
    rw [bind_of_eq_ok hresult, bind_of_eq_ok (hstep.symm.trans hresult), hnext a middle hresult]
  | error error middle =>
    rw [bind_of_eq_error hresult, bind_of_eq_error (hstep.symm.trans hresult)]

@[simp] theorem pure_apply (a : α) (state : σ) : (pure a : EStateM ε σ α) state = .ok a state :=
  rfl

theorem pure_eq_ok_iff {a b : α} {state final : σ} :
    (pure a : EStateM ε σ α) state = .ok b final ↔ a = b ∧ state = final := by
  simp

theorem get_apply (state : σ) : (get : EStateM ε σ σ) state = .ok state state :=
  rfl

end KawaiiLang
