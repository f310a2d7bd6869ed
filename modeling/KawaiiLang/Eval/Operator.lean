import KawaiiLang.Eval.RuntimeError

namespace KawaiiLang

/-- The integer `n`, if there is such an integer in a program. -/
def checkedInt (n : Int) : Except RuntimeFault Value :=
  if -Int.ofNat integerBound ≤ n ∧ n < Int.ofNat integerBound then .ok (.int (.ofInt n)) else .error .overflow

/-- The value of a unary operator. -/
def UnaryOp.apply (op : UnaryOp) (operand : Value) : Except RuntimeFault Value :=
  match op, operand with
  | .not, operand => .ok (.bool !operand.isTruthy)
  | .negate, .int n => checkedInt (-n.toInt)
  | .negate, .float x => .ok (.float (-x))
  | .negate, operand => .error (.notNegatable operand.type)

/-- How two floats compare, unless one of them is no number. -/
def compareFloats (a b : Float) : Option Ordering :=
  if a < b then some .lt
  else if a == b then some .eq
  else if b < a then some .gt
  else none

/-- An operator that computes with numbers. -/
inductive ArithmeticOp where
  | add
  | subtract
  | multiply
  | divide
  deriving DecidableEq, Inhabited

namespace ArithmeticOp

/-- The operator as it occurs in programs. -/
def toBinaryOp : ArithmeticOp → BinaryOp
  | add => .add
  | subtract => .subtract
  | multiply => .multiply
  | divide => .divide

/-- Computes with two integers. Division gives a float, and the others an integer
    if it fits. -/
def onInts (op : ArithmeticOp) (a b : Int) : Except RuntimeFault Value :=
  match op with
  | add => checkedInt (a + b)
  | subtract => checkedInt (a - b)
  | multiply => checkedInt (a * b)
  | divide =>
    if b = 0 then .error .divisionByZero else .ok (.float (Float.ofInt a / Float.ofInt b))

/-- Computes with two floats. -/
def onFloats (op : ArithmeticOp) (a b : Float) : Except RuntimeFault Value :=
  match op with
  | add => .ok (.float (a + b))
  | subtract => .ok (.float (a - b))
  | multiply => .ok (.float (a * b))
  | divide => if b == 0 then .error .divisionByZero else .ok (.float (a / b))

/-- Computes with two values: as integers if both are, and else as floats. -/
def apply (op : ArithmeticOp) (left right : Value) : Except RuntimeFault Value :=
  match left, right with
  | .int a, .int b => op.onInts a.toInt b.toInt
  | left, right =>
    match left.toFloat?, right.toFloat? with
    | some a, some b => op.onFloats a b
    | _, _ => .error (.notApplicable op.toBinaryOp left.type right.type)

end ArithmeticOp

/-- An operator that orders values. -/
inductive OrderOp where
  | less
  | lessEqual
  | greater
  | greaterEqual
  deriving DecidableEq, Inhabited

namespace OrderOp

/-- The operator as it occurs in programs. -/
def toBinaryOp : OrderOp → BinaryOp
  | less => .less
  | lessEqual => .lessEqual
  | greater => .greater
  | greaterEqual => .greaterEqual

/-- Whether the operator holds between two values that compare as given. -/
def holds : OrderOp → Ordering → Bool
  | less, order => order = .lt
  | lessEqual, order => order ≠ .gt
  | greater, order => order = .gt
  | greaterEqual, order => order ≠ .lt

/-- How two values compare: integers by size, strings by their characters, and
    other numbers as floats. Of two floats without an order no operator holds. -/
def compare (op : OrderOp) (left right : Value) : Except RuntimeFault (Option Ordering) :=
  match left, right with
  | .int a, .int b => .ok (some (Ord.compare a.toInt b.toInt))
  | .str a, .str b => .ok (some (Ord.compare a b))
  | left, right =>
    match left.toFloat?, right.toFloat? with
    | some a, some b => .ok (compareFloats a b)
    | _, _ => .error (.notComparable op.toBinaryOp left.type right.type)

/-- The value of an order operator. -/
def apply (op : OrderOp) (left right : Value) : Except RuntimeFault Value := do
  let order ← op.compare left right
  return .bool (order.any op.holds)

end OrderOp

/-- The sum of two values; if one of them is a string, their texts are joined. -/
def addValues (left right : Value) : Except RuntimeFault Value :=
  match left, right with
  | .str a, right => .ok (.str (a ++ right.display))
  | left, .str b => .ok (.str (left.display ++ b))
  | left, right => ArithmeticOp.add.apply left right

/-- The value of a binary operator. Both operands have been evaluated, also those
    of "and" and "or". -/
def BinaryOp.apply (op : BinaryOp) (left right : Value) : Except RuntimeFault Value :=
  match op with
  | .add => addValues left right
  | .subtract => ArithmeticOp.subtract.apply left right
  | .multiply => ArithmeticOp.multiply.apply left right
  | .divide => ArithmeticOp.divide.apply left right
  | .and => .ok (.bool (left.isTruthy && right.isTruthy))
  | .or => .ok (.bool (left.isTruthy || right.isTruthy))
  | .equal => .ok (.bool (left.equals right))
  | .notEqual => .ok (.bool !left.equals right)
  | .less => OrderOp.less.apply left right
  | .lessEqual => OrderOp.lessEqual.apply left right
  | .greater => OrderOp.greater.apply left right
  | .greaterEqual => OrderOp.greaterEqual.apply left right

/-- The value of `name` after an update in place. -/
def UpdateOp.apply (op : UpdateOp) (name : String) (current : Value) :
    Except RuntimeFault Value :=
  let delta : Int := match op with
    | .increment => 1
    | .decrement => -1
  match current with
  | .int n => checkedInt (n.toInt + delta)
  | .float x => .ok (.float (x + Float.ofInt delta))
  | other => .error (.notUpdatable op name other.type)

end KawaiiLang
