import KawaiiLang.Proofs.Semantics.Operator

namespace KawaiiLang

namespace Value

variable {left right : Value} {order : Option Ordering}

theorem equals_comm (left right : Value) : left.equals right = right.equals left := by
  cases left <;> cases right <;>
    first | rfl | exact float_beq_comm _ _ | exact decide_eq_decide.mpr eq_comm

/-- Two values compare the other way round if they change places. -/
theorem Compares.swap (horder : left.Compares right order) :
    right.Compares left (order.map Ordering.swap) := by
  cases horder with
  | ints a b =>
    rw [Option.map_some, ← Std.OrientedOrd.eq_swap]
    exact .ints b a
  | strings a b =>
    rw [Option.map_some, ← Std.OrientedOrd.eq_swap]
    exact .strings b a
  | @floats _ _ x y _ hfloats horder =>
    refine .floats ⟨hfloats.right, hfloats.left, fun hints => hfloats.notInts hints.symm⟩ ?_
    rw [floatOrder_iff] at horder ⊢
    rw [compareFloats_swap, horder]

/-- Values that compare are equal just if that is their order. -/
theorem Compares.equals_iff (horder : left.Compares right order) :
    left.equals right = true ↔ order = some .eq := by
  cases horder with
  | ints a b =>
    rw [Option.some_inj, Std.LawfulEqOrd.compare_eq_iff_eq, Int64.toInt_inj]
    exact decide_eq_true_iff
  | strings a b =>
    rw [Option.some_inj, Std.LawfulEqOrd.compare_eq_iff_eq]
    exact decide_eq_true_iff
  | floats hfloats horder =>
    obtain ⟨hleft, hright, hints⟩ := hfloats
    rw [← floatOrder_iff.mp horder]
    cases hleft <;> cases hright
    · exact absurd ⟨rfl, rfl⟩ hints
    all_goals exact beq_iff_compareFloats

/-- Two integers have an order, and so have two strings. -/
theorem exists_order {type : ValueType} (htype : type ∈ [ValueType.int, .string])
    (hleft : left.type = type) (hright : right.type = type) :
    ∃ order, left.Compares right (some order) := by
  simp only [List.mem_cons, List.not_mem_nil, or_false] at htype
  obtain rfl | rfl := htype
  · cases left <;> cases hleft
    cases right <;> cases hright
    exact ⟨_, .ints _ _⟩
  · cases left <;> cases hleft
    cases right <;> cases hright
    exact ⟨_, .strings _ _⟩

end Value

/-- A program finds that the operator holds between two values. -/
def BinaryOp.Holds (op : BinaryOp) (left right : Value) : Prop :=
  op.apply left right = .ok (.bool true)

namespace OrderOp

variable {left right : Value} {order : Option Ordering}

theorem toBinaryOp_holds_iff (op : OrderOp) (horder : left.Compares right order) :
    op.toBinaryOp.Holds left right ↔ order.any op.holds = true := by
  rw [BinaryOp.Holds, apply_toBinaryOp, apply_of_compares horder]
  simp

/-- The operator that holds of two values if the given one holds of them in the other order. -/
def converse : OrderOp → OrderOp
  | less => greater
  | lessEqual => greaterEqual
  | greater => less
  | greaterEqual => lessEqual

theorem any_swap_converse (op : OrderOp) (order : Option Ordering) :
    (order.map Ordering.swap).any op.converse.holds = order.any op.holds := by
  cases order with
  | none => rfl
  | some order => cases op <;> cases order <;> rfl

/-- If two values can be compared, an operator finds of them what its converse finds of them in
    the other order. -/
theorem apply_converse (op : OrderOp) (hvalues : left.Comparable right) :
    op.toBinaryOp.apply left right = op.converse.toBinaryOp.apply right left := by
  obtain ⟨order, horder⟩ := hvalues.exists_compares
  rw [apply_toBinaryOp, apply_toBinaryOp, apply_of_compares horder,
    apply_of_compares horder.swap, any_swap_converse]

end OrderOp

namespace BinaryOp

variable {left right third : Value} {order : Option Ordering}

theorem equal_holds_iff (horder : left.Compares right order) :
    equal.Holds left right ↔ order = some .eq := by
  rw [← horder.equals_iff, Holds, apply]
  simp

theorem less_holds_iff (horder : left.Compares right order) :
    less.Holds left right ↔ order = some .lt := by
  refine (OrderOp.less.toBinaryOp_holds_iff horder).trans ?_
  cases order with
  | none => simp
  | some order => simp [OrderOp.holds]

theorem lessEqual_holds_iff (hvalues : left.Comparable right) :
    lessEqual.Holds left right ↔ less.Holds left right ∨ equal.Holds left right := by
  obtain ⟨order, horder⟩ := hvalues.exists_compares
  rw [less_holds_iff horder, equal_holds_iff horder]
  refine (OrderOp.lessEqual.toBinaryOp_holds_iff horder).trans ?_
  cases order with
  | none => simp
  | some order => cases order <;> simp [OrderOp.holds]

/-- Of two values with an order just one is less, or they are equal. -/
theorem trichotomy {order : Ordering} (horder : left.Compares right (some order)) :
    (less.Holds left right ∨ equal.Holds left right ∨ less.Holds right left) ∧
      ¬ (less.Holds left right ∧ equal.Holds left right) ∧
      ¬ (less.Holds left right ∧ less.Holds right left) ∧
      ¬ (equal.Holds left right ∧ less.Holds right left) := by
  rw [less_holds_iff horder, equal_holds_iff horder, less_holds_iff horder.swap]
  cases order <;> simp

theorem less_trans {type : ValueType} (htype : type ∈ [ValueType.int, .string])
    (hleft : left.type = type) (hright : right.type = type) (hthird : third.type = type)
    (hfirst : less.Holds left right) (hsecond : less.Holds right third) :
    less.Holds left third := by
  simp only [List.mem_cons, List.not_mem_nil, or_false] at htype
  obtain rfl | rfl := htype
  · cases left <;> cases hleft
    cases right <;> cases hright
    cases third <;> cases hthird
    rw [less_holds_iff (.ints _ _), Option.some_inj] at hfirst hsecond ⊢
    exact Std.TransCmp.lt_trans hfirst hsecond
  · cases left <;> cases hleft
    cases right <;> cases hright
    cases third <;> cases hthird
    rw [less_holds_iff (.strings _ _), Option.some_inj] at hfirst hsecond ⊢
    exact Std.TransCmp.lt_trans hfirst hsecond

/-- The comparison operators agree with each other. Any two values are equal or not, in either
    order of them. The other operators are for two numbers or two strings, and end in an error for
    all other values. Where they are for both values, an inequality can be read from either side,
    and `<=` is `<` or `==`. Integers stand in one line under `<`, and so do strings. -/
theorem comparisons_agree (a b : Value) :
    (∃ same : Bool,
      equal.apply a b = .ok (.bool same) ∧ notEqual.apply a b = .ok (.bool !same) ∧
      equal.apply b a = .ok (.bool same) ∧ notEqual.apply b a = .ok (.bool !same)) ∧
    (∀ op : OrderOp,
      (a.Comparable b → ∃ holds, op.toBinaryOp.apply a b = .ok (.bool holds)) ∧
      (¬ a.Comparable b →
        ∃ fault, op.toBinaryOp.apply a b = .error fault ∧ fault.kind = .typeMismatch)) ∧
    (a.Comparable b →
      less.apply a b = greater.apply b a ∧ lessEqual.apply a b = greaterEqual.apply b a ∧
      (lessEqual.Holds a b ↔ less.Holds a b ∨ equal.Holds a b)) ∧
    ∀ type ∈ [ValueType.int, .string], a.type = type → b.type = type →
      ((less.Holds a b ∨ equal.Holds a b ∨ less.Holds b a) ∧
        ¬ (less.Holds a b ∧ equal.Holds a b) ∧
        ¬ (less.Holds a b ∧ less.Holds b a) ∧
        ¬ (equal.Holds a b ∧ less.Holds b a)) ∧
      ∀ c : Value, c.type = type → less.Holds a b → less.Holds b c → less.Holds a c := by
  refine ⟨⟨a.equals b, rfl, rfl, ?_, ?_⟩, ?_, ?_, ?_⟩
  · rw [apply, a.equals_comm b]
  · rw [apply, a.equals_comm b]
  · intro op
    rw [op.apply_toBinaryOp]
    constructor
    · intro hvalues
      obtain ⟨order, horder⟩ := hvalues.exists_compares
      exact ⟨_, OrderOp.apply_of_compares horder⟩
    · intro hvalues
      exact ⟨_, OrderOp.apply_of_not_comparable hvalues, rfl⟩
  · intro hvalues
    exact ⟨OrderOp.less.apply_converse hvalues, OrderOp.lessEqual.apply_converse hvalues,
      lessEqual_holds_iff hvalues⟩
  · intro type htype ha hb
    obtain ⟨order, horder⟩ := Value.exists_order htype ha hb
    exact ⟨trichotomy horder, fun c hc => less_trans htype ha hb hc⟩

-- Numbers of both types are in no line, as two integers can be equal to the same float.
example :
    equal.Holds (.int 9007199254740992) (.float 9007199254740992) ∧
      equal.Holds (.float 9007199254740992) (.int 9007199254740993) ∧
      less.Holds (.int 9007199254740992) (.int 9007199254740993) :=
  ⟨rfl, rfl, rfl⟩

end BinaryOp
end KawaiiLang
