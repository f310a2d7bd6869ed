import KawaiiLang.Proofs.Value.Display
import KawaiiLang.Proofs.Value.FloatOrder

namespace KawaiiLang

namespace Value

/-- The values with which a condition holds. -/
inductive Truthy : Value → Prop where
  | bool : Truthy (.bool true)
  | int {n : Int64} (hn : n ≠ 0) : Truthy (.int n)
  | float {x : Float} (hx : (x != 0) = true) : Truthy (.float x)
  | str {text : String} (htext : text ≠ "") : Truthy (.str text)
  | function (closure : Closure) : Truthy (.function closure)

theorem truthy_iff {value : Value} : value.Truthy ↔ value.isTruthy = true := by
  constructor
  · intro htruthy
    cases htruthy with
    | bool => rfl
    | int hn => exact decide_eq_true hn
    | float hx => exact hx
    | str htext => simpa [isTruthy] using htext
    | function => rfl
  · intro htruthy
    cases value with
    | unit => cases htruthy
    | bool value =>
      cases htruthy
      exact .bool
    | int n => exact .int (of_decide_eq_true htruthy)
    | float x => exact .float htruthy
    | str text => exact .str (by simpa [isTruthy] using htruthy)
    | function closure => exact .function closure

/-- The pairs of values that are equal for a program: two of one type, or two numbers of the
    same size. A function is equal to itself only. -/
inductive Equal : Value → Value → Prop where
  | unit : Equal .unit .unit
  | bool (value : Bool) : Equal (.bool value) (.bool value)
  | int (n : Int64) : Equal (.int n) (.int n)
  | float {x y : Float} (hxy : (x == y) = true) : Equal (.float x) (.float y)
  | intFloat {n : Int64} {y : Float} (hy : (Float.ofInt n.toInt == y) = true) :
      Equal (.int n) (.float y)
  | floatInt {x : Float} {n : Int64} (hx : (x == Float.ofInt n.toInt) = true) :
      Equal (.float x) (.int n)
  | str (text : String) : Equal (.str text) (.str text)
  | function {first second : Closure} (hstamp : first.stamp = second.stamp) :
      Equal (.function first) (.function second)

theorem equal_iff {left right : Value} : left.Equal right ↔ left.equals right = true := by
  constructor
  · intro hequal
    cases hequal with
    | unit => rfl
    | bool | int | str => exact decide_eq_true rfl
    | float h | intFloat h | floatInt h => exact h
    | function hstamp => exact decide_eq_true hstamp
  · intro hequal
    unfold equals at hequal
    split at hequal
    · exact .intFloat hequal
    · exact .floatInt hequal
    · unfold same at hequal
      split at hequal
      · exact .unit
      · exact of_decide_eq_true hequal ▸ .bool _
      · exact of_decide_eq_true hequal ▸ .int _
      · exact .float hequal
      · exact of_decide_eq_true hequal ▸ .str _
      · exact .function (of_decide_eq_true hequal)
      · cases hequal

/-- The float that a number counts as where floats are computed with. -/
inductive Promotes : Value → Float → Prop where
  | int (n : Int64) : Promotes (.int n) (.ofInt n.toInt)
  | float (x : Float) : Promotes (.float x) x

theorem promotes_iff {value : Value} {x : Float} : value.Promotes x ↔ value.toFloat? = some x := by
  constructor
  · intro hpromotes
    cases hpromotes <;> rfl
  · intro hfloat
    cases value <;> cases hfloat
    · exact .int _
    · exact .float _

/-- Two numbers that count as floats side by side, as not both of them are integers. -/
structure AsFloats (first second : Value) (x y : Float) : Prop where
  left : first.Promotes x
  right : second.Promotes y
  notInts : ¬ (first.type = .int ∧ second.type = .int)

/-- How two values compare: integers by size, strings by their characters, and other numbers
    as floats, of which not all have an order. -/
inductive Compares : Value → Value → Option Ordering → Prop where
  | ints (a b : Int64) : Compares (.int a) (.int b) (some (compare a.toInt b.toInt))
  | strings (a b : String) : Compares (.str a) (.str b) (some (compare a b))
  | floats {left right : Value} {x y : Float} {order : Option Ordering}
      (hfloats : AsFloats left right x y) (horder : FloatOrder x y order) :
      Compares left right order

/-- Two values that can be compared: two numbers or two strings. -/
def Comparable (left right : Value) : Prop :=
  left.isNumeric ∧ right.isNumeric ∨ left.type = .string ∧ right.type = .string

end Value

/-- What an operation on integers gives whose exact result is `n`: the result, if there is such
    an integer in a program. -/
inductive Exactly (n : Int) : Except RuntimeFault Value → Prop where
  | fits {m : Int64} (hm : m.toInt = n) : Exactly n (.ok (.int m))
  | overflows (hn : ∀ m : Int64, m.toInt ≠ n) : Exactly n (.error .overflow)

theorem exactly_iff {n : Int} {given : Except RuntimeFault Value} :
    Exactly n given ↔ checkedInt n = given := by
  unfold checkedInt
  constructor
  · intro hgiven
    cases hgiven with
    | fits hm =>
      subst hm
      rw [if_pos ⟨Int64.le_toInt _, Int64.toInt_lt _⟩, Int64.ofInt_toInt]
    | overflows hn =>
      rw [if_neg]
      rintro ⟨hlow, hhigh⟩
      exact hn (.ofInt n) (Int64.toInt_ofInt_of_le hlow hhigh)
  · intro hgiven
    split at hgiven
    · next hbounds =>
      subst hgiven
      exact .fits (Int64.toInt_ofInt_of_le hbounds.1 hbounds.2)
    · next hbounds =>
      subst hgiven
      refine .overflows ?_
      rintro m rfl
      exact hbounds ⟨Int64.le_toInt m, Int64.toInt_lt m⟩

/-- What a unary operator gives. -/
inductive UnaryOp.Gives : UnaryOp → Value → Except RuntimeFault Value → Prop where
  | not {operand : Value} {holds : Bool} (hholds : holds = true ↔ ¬ operand.Truthy) :
      Gives .not operand (.ok (.bool holds))
  | negateInt {n : Int64} {given : Except RuntimeFault Value} (hgiven : Exactly (-n.toInt) given) :
      Gives .negate (.int n) given
  | negateFloat (x : Float) : Gives .negate (.float x) (.ok (.float (-x)))
  | notNegatable {operand : Value} (hoperand : ¬ operand.isNumeric) :
      Gives .negate operand (.error (.notNegatable operand.type))

namespace BinaryOp

/-- The operators that keep integers integers, with what they compute of integers and of
    floats. -/
inductive Computes : BinaryOp → (Int → Int → Int) → (Float → Float → Float) → Prop where
  | add : Computes .add (· + ·) (· + ·)
  | subtract : Computes .subtract (· - ·) (· - ·)
  | multiply : Computes .multiply (· * ·) (· * ·)

/-- The operators that take numbers only, or strings as well in the case of a sum. -/
inductive Arithmetic : BinaryOp → Prop where
  | computes {op : BinaryOp} {onInts : Int → Int → Int} {onFloats : Float → Float → Float}
      (hop : Computes op onInts onFloats) : Arithmetic op
  | divide : Arithmetic .divide

/-- The operators that order values, with the orders in which they hold. -/
inductive Admits : BinaryOp → Ordering → Prop where
  | less : Admits .less .lt
  | lessEqualLt : Admits .lessEqual .lt
  | lessEqualEq : Admits .lessEqual .eq
  | greater : Admits .greater .gt
  | greaterEqualGt : Admits .greaterEqual .gt
  | greaterEqualEq : Admits .greaterEqual .eq

/-- What a binary operator gives. Both operands are values already, also those of "and" and
    "or". -/
inductive Gives : BinaryOp → Value → Value → Except RuntimeFault Value → Prop where
  | joined {left right : Value} {text text' : String}
      (hstring : left.type = .string ∨ right.type = .string) (hleft : left.Displays text)
      (hright : right.Displays text') : Gives .add left right (.ok (.str (text ++ text')))
  | ints {op : BinaryOp} {onInts : Int → Int → Int} {onFloats : Float → Float → Float}
      {a b : Int64} {given : Except RuntimeFault Value} (hop : op.Computes onInts onFloats)
      (hgiven : Exactly (onInts a.toInt b.toInt) given) : Gives op (.int a) (.int b) given
  | floats {op : BinaryOp} {onInts : Int → Int → Int} {onFloats : Float → Float → Float}
      {left right : Value} {x y : Float} (hop : op.Computes onInts onFloats)
      (hfloats : left.AsFloats right x y) : Gives op left right (.ok (.float (onFloats x y)))
  | intQuotient {a b : Int64} (hb : b ≠ 0) :
      Gives .divide (.int a) (.int b) (.ok (.float (.ofInt a.toInt / .ofInt b.toInt)))
  | intZero (a : Int64) : Gives .divide (.int a) (.int 0) (.error .divisionByZero)
  | quotient {left right : Value} {x y : Float} (hfloats : left.AsFloats right x y)
      (hy : (y == 0) = false) : Gives .divide left right (.ok (.float (x / y)))
  | zero {left right : Value} {x y : Float} (hfloats : left.AsFloats right x y)
      (hy : (y == 0) = true) : Gives .divide left right (.error .divisionByZero)
  | notApplicable {op : BinaryOp} {left right : Value} (hop : op.Arithmetic)
      (hnumbers : ¬ (left.isNumeric ∧ right.isNumeric))
      (hstrings : op = .add → left.type ≠ .string ∧ right.type ≠ .string) :
      Gives op left right (.error (.notApplicable op left.type right.type))
  | and {left right : Value} {holds : Bool} (hholds : holds = true ↔ left.Truthy ∧ right.Truthy) :
      Gives .and left right (.ok (.bool holds))
  | or {left right : Value} {holds : Bool} (hholds : holds = true ↔ left.Truthy ∨ right.Truthy) :
      Gives .or left right (.ok (.bool holds))
  | equal {left right : Value} {holds : Bool} (hholds : holds = true ↔ left.Equal right) :
      Gives .equal left right (.ok (.bool holds))
  | notEqual {left right : Value} {holds : Bool} (hholds : holds = true ↔ ¬ left.Equal right) :
      Gives .notEqual left right (.ok (.bool holds))
  | ordered {op : BinaryOp} {left right : Value} {order : Option Ordering} {holds : Bool}
      (hop : ∃ ordering, op.Admits ordering) (horder : left.Compares right order)
      (hholds : holds = true ↔ ∃ ordering ∈ order, op.Admits ordering) :
      Gives op left right (.ok (.bool holds))
  | notComparable {op : BinaryOp} {left right : Value} (hop : ∃ ordering, op.Admits ordering)
      (hvalues : ¬ left.Comparable right) :
      Gives op left right (.error (.notComparable op left.type right.type))

end BinaryOp

/-- How much an update in place adds to a number. -/
def UpdateOp.delta : UpdateOp → Int
  | increment => 1
  | decrement => -1

/-- What `name` is bound to by an update in place. -/
inductive UpdateOp.Gives (op : UpdateOp) (name : String) :
    Value → Except RuntimeFault Value → Prop where
  | int {n : Int64} {given : Except RuntimeFault Value} (hgiven : Exactly (n.toInt + op.delta) given) :
      Gives op name (.int n) given
  | float (x : Float) : Gives op name (.float x) (.ok (.float (x + .ofInt op.delta)))
  | notUpdatable {current : Value} (hcurrent : ¬ current.isNumeric) :
      Gives op name current (.error (.notUpdatable op name current.type))

namespace Value

/-- Two values are two integers, or two other numbers, or not both numbers. -/
theorem numbers_cases (left right : Value) :
    (∃ a b, left = .int a ∧ right = .int b) ∨ (∃ x y, left.AsFloats right x y) ∨
      ¬ (left.isNumeric ∧ right.isNumeric) := by
  by_cases hnumbers : left.isNumeric ∧ right.isNumeric
  · obtain ⟨x, hx⟩ := Option.isSome_iff_exists.mp hnumbers.1
    obtain ⟨y, hy⟩ := Option.isSome_iff_exists.mp hnumbers.2
    have hfloats (hints : ¬ (left.type = .int ∧ right.type = .int)) : left.AsFloats right x y :=
      ⟨promotes_iff.mpr hx, promotes_iff.mpr hy, hints⟩
    cases left with
    | int a =>
      cases right with
      | int b => exact .inl ⟨a, b, rfl, rfl⟩
      | float b => exact .inr (.inl ⟨x, y, hfloats (by simp [type])⟩)
      | unit | bool | str | function => cases hy
    | float a => exact .inr (.inl ⟨x, y, hfloats (by simp [type])⟩)
    | unit | bool | str | function => cases hx
  · exact .inr (.inr hnumbers)

theorem AsFloats.isNumeric {left right : Value} {x y : Float} (hfloats : left.AsFloats right x y) :
    left.isNumeric ∧ right.isNumeric := by
  rw [Value.isNumeric, Value.isNumeric, promotes_iff.mp hfloats.left, promotes_iff.mp hfloats.right]
  exact ⟨rfl, rfl⟩

/-- Any two numbers and any two strings compare, though perhaps without an order. -/
theorem Comparable.exists_compares {left right : Value} (hvalues : left.Comparable right) :
    ∃ order, left.Compares right order := by
  obtain hnumbers | hstrings := hvalues
  · obtain ⟨a, b, rfl, rfl⟩ | ⟨x, y, hfloats⟩ | hnot := left.numbers_cases right
    · exact ⟨_, .ints a b⟩
    · exact ⟨_, .floats hfloats (floatOrder_iff.mpr rfl)⟩
    · exact absurd hnumbers hnot
  · cases left <;> cases hstrings.1
    cases right <;> cases hstrings.2
    exact ⟨_, .strings _ _⟩

/-- A string is no number. -/
theorem type_ne_string_of_isNumeric {value : Value} (hnumber : value.isNumeric = true) :
    value.type ≠ .string := by
  cases value with
  | int | float => nofun
  | unit | bool | str | function => cases hnumber

end Value

/-- Two truth values are the same if they stand for the same statement. -/
private theorem eq_of_iff_true {first second : Bool} {p : Prop} (hfirst : first = true ↔ p)
    (hsecond : second = true ↔ p) : first = second :=
  Bool.eq_iff_iff.mpr (hfirst.trans hsecond.symm)

/-- The unary operators give what they are said to. -/
theorem UnaryOp.gives_iff {op : UnaryOp} {operand : Value} {given : Except RuntimeFault Value} :
    op.Gives operand given ↔ op.apply operand = given := by
  constructor
  · intro hgives
    cases hgives with
    | not hholds =>
      have hsame : (!operand.isTruthy) = _ := eq_of_iff_true (by simp [Value.truthy_iff]) hholds
      simp only [apply, hsame]
    | negateInt hgiven => exact exactly_iff.mp hgiven
    | negateFloat => rfl
    | notNegatable hoperand => cases operand <;> first | rfl | exact absurd rfl hoperand
  · rintro rfl
    cases op with
    | not => exact .not (by simp [Value.truthy_iff])
    | negate =>
      cases operand with
      | int n => exact .negateInt (exactly_iff.mpr rfl)
      | float x => exact .negateFloat x
      | unit | bool | str | function => exact .notNegatable nofun

/-- The updates in place give what they are said to. -/
theorem UpdateOp.gives_iff {op : UpdateOp} {name : String} {current : Value}
    {given : Except RuntimeFault Value} :
    op.Gives name current given ↔ op.apply name current = given := by
  constructor
  · intro hgives
    cases hgives with
    | int hgiven => cases op <;> exact exactly_iff.mp hgiven
    | float => cases op <;> rfl
    | notUpdatable hcurrent => cases current <;> first | rfl | exact absurd rfl hcurrent
  · rintro rfl
    cases current with
    | int n => cases op <;> exact .int (exactly_iff.mpr rfl)
    | float x => cases op <;> exact .float x
    | unit | bool | str | function => exact .notUpdatable nofun

namespace ArithmeticOp

variable {left right : Value}

theorem apply_of_asFloats (op : ArithmeticOp) {x y : Float} (hfloats : left.AsFloats right x y) :
    op.apply left right = op.onFloats x y := by
  obtain ⟨hleft, hright, hints⟩ := hfloats
  cases hleft <;> cases hright
  · exact absurd ⟨rfl, rfl⟩ hints
  all_goals rfl

theorem apply_of_not_numeric (op : ArithmeticOp) (hnumbers : ¬ (left.isNumeric ∧ right.isNumeric)) :
    op.apply left right = .error (.notApplicable op.toBinaryOp left.type right.type) := by
  unfold apply
  split
  · exact absurd ⟨rfl, rfl⟩ hnumbers
  · split
    · next hx hy =>
      rw [Value.isNumeric, Value.isNumeric, hx, hy] at hnumbers
      exact absurd ⟨rfl, rfl⟩ hnumbers
    · rfl

/-- Arithmetic gives what it is said to give for two values of which a sum takes no strings. -/
theorem gives_apply (op : ArithmeticOp)
    (hstrings : op = .add → left.type ≠ .string ∧ right.type ≠ .string) :
    op.toBinaryOp.Gives left right (op.apply left right) := by
  obtain ⟨a, b, rfl, rfl⟩ | ⟨x, y, hfloats⟩ | hnumbers := left.numbers_cases right
  · cases op with
    | add => exact .ints .add (exactly_iff.mpr rfl)
    | subtract => exact .ints .subtract (exactly_iff.mpr rfl)
    | multiply => exact .ints .multiply (exactly_iff.mpr rfl)
    | divide =>
      by_cases hb : b = 0
      · subst hb
        exact .intZero a
      · have hzero : b.toInt ≠ 0 := fun h => hb (Int64.toInt_inj.mp h)
        simp only [apply, onInts, if_neg hzero]
        exact .intQuotient hb
  · rw [apply_of_asFloats op hfloats]
    cases op with
    | add => exact .floats .add hfloats
    | subtract => exact .floats .subtract hfloats
    | multiply => exact .floats .multiply hfloats
    | divide =>
      by_cases hy : (y == 0) = true
      · simp only [onFloats, if_pos hy]
        exact .zero hfloats hy
      · simp only [onFloats, if_neg hy]
        exact .quotient hfloats (Bool.eq_false_iff.mpr hy)
  · rw [apply_of_not_numeric op hnumbers]
    refine .notApplicable ?_ hnumbers ?_
    · cases op with
      | add => exact .computes .add
      | subtract => exact .computes .subtract
      | multiply => exact .computes .multiply
      | divide => exact .divide
    · intro hop
      cases op <;> cases hop
      exact hstrings rfl

end ArithmeticOp

theorem addValues_of_not_string {left right : Value} (hleft : left.type ≠ .string)
    (hright : right.type ≠ .string) : addValues left right = ArithmeticOp.add.apply left right := by
  unfold addValues
  split
  · exact absurd rfl hleft
  · exact absurd rfl hright
  · rfl

theorem addValues_of_string {left right : Value}
    (hstring : left.type = .string ∨ right.type = .string) :
    addValues left right = .ok (.str (left.display ++ right.display)) := by
  unfold addValues
  split
  · rfl
  · rfl
  · next hleft hright =>
    obtain htype | htype := hstring
    · cases left <;> cases htype
      exact absurd rfl (hleft _)
    · cases right <;> cases htype
      exact absurd rfl (hright _)

namespace OrderOp

variable {op : OrderOp} {left right : Value}

theorem holds_iff {order : Ordering} : op.holds order = true ↔ op.toBinaryOp.Admits order := by
  constructor
  · intro hholds
    unfold holds at hholds
    split at hholds
    · exact of_decide_eq_true hholds ▸ .less
    · cases order with
      | lt => exact .lessEqualLt
      | eq => exact .lessEqualEq
      | gt => cases hholds
    · exact of_decide_eq_true hholds ▸ .greater
    · cases order with
      | lt => cases hholds
      | eq => exact .greaterEqualEq
      | gt => exact .greaterEqualGt
  · intro hadmits
    cases op <;> cases hadmits <;> rfl

theorem apply_toBinaryOp (op : OrderOp) : op.toBinaryOp.apply = op.apply := by
  cases op <;> rfl

theorem exists_admits (op : OrderOp) : ∃ order, op.toBinaryOp.Admits order := by
  cases op with
  | less => exact ⟨_, .less⟩
  | lessEqual => exact ⟨_, .lessEqualLt⟩
  | greater => exact ⟨_, .greater⟩
  | greaterEqual => exact ⟨_, .greaterEqualGt⟩

theorem compare_of_compares {order : Option Ordering} (horder : left.Compares right order) :
    op.compare left right = .ok order := by
  cases horder with
  | ints | strings => rfl
  | floats hfloats hordered =>
    obtain ⟨hleft, hright, hints⟩ := hfloats
    rw [← floatOrder_iff.mp hordered]
    cases hleft <;> cases hright
    · exact absurd ⟨rfl, rfl⟩ hints
    all_goals rfl

theorem compare_of_not_comparable (hvalues : ¬ left.Comparable right) :
    op.compare left right = .error (.notComparable op.toBinaryOp left.type right.type) := by
  unfold compare
  split
  · exact absurd (.inl ⟨rfl, rfl⟩) hvalues
  · exact absurd (.inr ⟨rfl, rfl⟩) hvalues
  · split
    · next hx hy =>
      refine absurd (.inl ?_) hvalues
      rw [Value.isNumeric, Value.isNumeric, hx, hy]
      exact ⟨rfl, rfl⟩
    · rfl

theorem apply_of_compares {order : Option Ordering} (horder : left.Compares right order) :
    op.apply left right = .ok (.bool (order.any op.holds)) := by
  rw [apply, compare_of_compares horder]
  rfl

theorem any_holds_iff {order : Option Ordering} :
    order.any op.holds = true ↔ ∃ ordering ∈ order, op.toBinaryOp.Admits ordering := by
  simp [Option.any_eq_true, holds_iff]

theorem apply_of_not_comparable (hvalues : ¬ left.Comparable right) :
    op.apply left right = .error (.notComparable op.toBinaryOp left.type right.type) := by
  rw [apply, compare_of_not_comparable hvalues]
  rfl

/-- An order operator gives what it is said to give. -/
theorem gives_apply (op : OrderOp) (left right : Value) :
    op.toBinaryOp.Gives left right (op.apply left right) := by
  by_cases hvalues : left.Comparable right
  · obtain ⟨order, horder⟩ := hvalues.exists_compares
    rw [apply_of_compares horder]
    exact .ordered op.exists_admits horder any_holds_iff
  · rw [apply_of_not_comparable hvalues]
    exact .notComparable op.exists_admits hvalues

end OrderOp

namespace BinaryOp

variable {op : BinaryOp} {left right : Value}

theorem Admits.exists_orderOp {order : Ordering} (hadmits : op.Admits order) :
    ∃ orderOp : OrderOp, op = orderOp.toBinaryOp := by
  cases hadmits with
  | less => exact ⟨.less, rfl⟩
  | lessEqualLt | lessEqualEq => exact ⟨.lessEqual, rfl⟩
  | greater => exact ⟨.greater, rfl⟩
  | greaterEqualGt | greaterEqualEq => exact ⟨.greaterEqual, rfl⟩

theorem Computes.apply_floats {onInts : Int → Int → Int} {onFloats : Float → Float → Float}
    {x y : Float} (hop : op.Computes onInts onFloats) (hfloats : left.AsFloats right x y) :
    op.apply left right = .ok (.float (onFloats x y)) := by
  have hstrings := hfloats.isNumeric.imp Value.type_ne_string_of_isNumeric
    Value.type_ne_string_of_isNumeric
  cases hop with
  | add =>
    exact (addValues_of_not_string hstrings.1 hstrings.2).trans
      (ArithmeticOp.apply_of_asFloats .add hfloats)
  | subtract => exact ArithmeticOp.apply_of_asFloats .subtract hfloats
  | multiply => exact ArithmeticOp.apply_of_asFloats .multiply hfloats

theorem Arithmetic.apply_of_not_numeric (hop : op.Arithmetic)
    (hnumbers : ¬ (left.isNumeric ∧ right.isNumeric))
    (hstrings : op = .add → left.type ≠ .string ∧ right.type ≠ .string) :
    op.apply left right = .error (.notApplicable op left.type right.type) := by
  cases hop with
  | computes hop =>
    cases hop with
    | add =>
      exact (addValues_of_not_string (hstrings rfl).1 (hstrings rfl).2).trans
        (ArithmeticOp.apply_of_not_numeric .add hnumbers)
    | subtract => exact ArithmeticOp.apply_of_not_numeric .subtract hnumbers
    | multiply => exact ArithmeticOp.apply_of_not_numeric .multiply hnumbers
  | divide => exact ArithmeticOp.apply_of_not_numeric .divide hnumbers

theorem Gives.apply_eq {given : Except RuntimeFault Value} (hgives : op.Gives left right given) :
    op.apply left right = given := by
  cases hgives with
  | joined hstring hleft hright =>
    rw [← Value.displays_iff.mp hleft, ← Value.displays_iff.mp hright]
    exact addValues_of_string hstring
  | ints hop hgiven => cases hop <;> exact exactly_iff.mp hgiven
  | floats hop hfloats => exact hop.apply_floats hfloats
  | @intQuotient a b hb =>
    have hzero : b.toInt ≠ 0 := fun h => hb (Int64.toInt_inj.mp h)
    simp only [apply, ArithmeticOp.apply, ArithmeticOp.onInts, if_neg hzero]
  | intZero => rfl
  | quotient hfloats hy =>
    have happly := ArithmeticOp.apply_of_asFloats .divide hfloats
    rwa [ArithmeticOp.onFloats, if_neg (Bool.eq_false_iff.mp hy)] at happly
  | zero hfloats hy =>
    have happly := ArithmeticOp.apply_of_asFloats .divide hfloats
    rwa [ArithmeticOp.onFloats, if_pos hy] at happly
  | notApplicable hop hnumbers hstrings => exact hop.apply_of_not_numeric hnumbers hstrings
  | and hholds =>
    have hsame : (left.isTruthy && right.isTruthy) = _ := eq_of_iff_true (by simp [Value.truthy_iff]) hholds
    simp only [apply, hsame]
  | or hholds =>
    have hsame : (left.isTruthy || right.isTruthy) = _ := eq_of_iff_true (by simp [Value.truthy_iff]) hholds
    simp only [apply, hsame]
  | equal hholds =>
    have hsame := eq_of_iff_true Value.equal_iff.symm hholds
    simp only [apply, hsame]
  | notEqual hholds =>
    have hsame : (!left.equals right) = _ := eq_of_iff_true (by simp [Value.equal_iff]) hholds
    simp only [apply, hsame]
  | ordered hop horder hholds =>
    obtain ⟨_, hadmits⟩ := hop
    obtain ⟨orderOp, rfl⟩ := hadmits.exists_orderOp
    rw [orderOp.apply_toBinaryOp, OrderOp.apply_of_compares horder,
      eq_of_iff_true OrderOp.any_holds_iff hholds]
  | notComparable hop hvalues =>
    obtain ⟨_, hadmits⟩ := hop
    obtain ⟨orderOp, rfl⟩ := hadmits.exists_orderOp
    rw [orderOp.apply_toBinaryOp]
    exact OrderOp.apply_of_not_comparable hvalues

theorem gives_apply (op : BinaryOp) (left right : Value) :
    op.Gives left right (op.apply left right) := by
  cases op with
  | add =>
    by_cases hstring : left.type = .string ∨ right.type = .string
    · rw [apply, addValues_of_string hstring]
      exact .joined hstring (Value.displays_iff.mpr rfl) (Value.displays_iff.mpr rfl)
    · rw [not_or] at hstring
      rw [apply, addValues_of_not_string hstring.1 hstring.2]
      exact ArithmeticOp.add.gives_apply fun _ => hstring
  | subtract => exact ArithmeticOp.subtract.gives_apply nofun
  | multiply => exact ArithmeticOp.multiply.gives_apply nofun
  | divide => exact ArithmeticOp.divide.gives_apply nofun
  | and => exact .and (by simp [Value.truthy_iff])
  | or => exact .or (by simp [Value.truthy_iff])
  | equal => exact .equal Value.equal_iff.symm
  | notEqual => exact .notEqual (by simp [Value.equal_iff])
  | less => exact OrderOp.less.gives_apply left right
  | lessEqual => exact OrderOp.lessEqual.gives_apply left right
  | greater => exact OrderOp.greater.gives_apply left right
  | greaterEqual => exact OrderOp.greaterEqual.gives_apply left right

/-- The binary operators give what they are said to. -/
theorem gives_iff {given : Except RuntimeFault Value} :
    op.Gives left right given ↔ op.apply left right = given := by
  constructor
  · exact Gives.apply_eq
  · rintro rfl
    exact gives_apply op left right

end BinaryOp
end KawaiiLang
