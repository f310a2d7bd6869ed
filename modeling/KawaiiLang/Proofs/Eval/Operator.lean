import KawaiiLang.Eval.Operator

namespace KawaiiLang

theorem checkedInt_type {n : Int} {value : Value} (hvalue : checkedInt n = .ok value) :
    value.type = .int := by
  unfold checkedInt at hvalue
  split at hvalue <;> cases hvalue
  rfl

theorem ArithmeticOp.apply_type {op : ArithmeticOp} {left right value : Value}
    (hvalue : op.apply left right = .ok value) : value.type ≠ .function := by
  unfold apply at hvalue
  split at hvalue
  · cases op <;> simp only [onInts] at hvalue
    case divide =>
      split at hvalue <;> cases hvalue
      nofun
    all_goals
      rw [checkedInt_type hvalue]
      nofun
  · split at hvalue
    · cases op <;> simp only [onFloats] at hvalue
      case divide =>
        split at hvalue <;> cases hvalue
        nofun
      all_goals
        cases hvalue
        nofun
    · cases hvalue

theorem OrderOp.apply_type {op : OrderOp} {left right value : Value}
    (hvalue : op.apply left right = .ok value) : value.type ≠ .function := by
  unfold apply at hvalue
  cases horder : op.compare left right with
  | ok order =>
    rw [horder] at hvalue
    cases hvalue
    nofun
  | error fault =>
    rw [horder] at hvalue
    cases hvalue

theorem UnaryOp.apply_type {op : UnaryOp} {operand value : Value}
    (hvalue : op.apply operand = .ok value) : value.type ≠ .function := by
  unfold apply at hvalue
  split at hvalue
  · cases hvalue
    nofun
  · rw [checkedInt_type hvalue]
    nofun
  · cases hvalue
    nofun
  · cases hvalue

/-- No operator gives a function. -/
theorem BinaryOp.apply_type {op : BinaryOp} {left right value : Value}
    (hvalue : op.apply left right = .ok value) : value.type ≠ .function := by
  cases op <;> simp only [apply] at hvalue
  case add =>
    unfold addValues at hvalue
    split at hvalue
    · cases hvalue
      nofun
    · cases hvalue
      nofun
    · exact ArithmeticOp.apply_type hvalue
  case subtract | multiply | divide => exact ArithmeticOp.apply_type hvalue
  case less | lessEqual | greater | greaterEqual => exact OrderOp.apply_type hvalue
  case and | or | equal | notEqual =>
    cases hvalue
    nofun

/-- Only numbers are updated in place, and they stay numbers. -/
theorem UpdateOp.apply_type {op : UpdateOp} {name : String} {current value : Value}
    (hvalue : op.apply name current = .ok value) :
    current.type ≠ .function ∧ value.type ≠ .function := by
  unfold apply at hvalue
  dsimp only at hvalue
  split at hvalue
  · refine ⟨nofun, ?_⟩
    rw [checkedInt_type hvalue]
    nofun
  · cases hvalue
    exact ⟨nofun, nofun⟩
  · cases hvalue

end KawaiiLang
