import KawaiiLang.Decimal.FloatText
import KawaiiLang.Program.Stmt
import KawaiiLang.Text.Escaped

namespace KawaiiLang

/-- Names a frame of bindings by the order in which frames were made. -/
abbrev FrameId :=
  Nat

/-- A function at run time: its definition, and the frame in which its free names
    are looked up. -/
structure Closure where
  /-- Tells this function from every other one, even from one that was defined by
      the same text. -/
  stamp : Nat
  name : String
  params : List String
  body : List Stmt
  home : FrameId
  deriving Inhabited

/-- The function in short, without its body and its frame. -/
def Closure.summary (closure : Closure) : String :=
  "Function \x7b name: " ++ Text.quoted closure.name ++ ", params: " ++
    Text.quotedList closure.params ++ ", .. \x7d"

/-- What an expression evaluates to. -/
inductive Value where
  | unit
  | bool (value : Bool)
  | int (value : Int64)
  | float (value : Float)
  | str (value : String)
  | function (closure : Closure)
  deriving Inhabited

/-- The type of a value, as far as messages speak of it. -/
inductive ValueType where
  | unit
  | bool
  | int
  | float
  | string
  | function
  deriving DecidableEq, Inhabited

/-- The name of a type. -/
def ValueType.name : ValueType → String
  | unit => "unit"
  | bool => "bool"
  | int => "int"
  | float => "float"
  | string => "string"
  | function => "function"

namespace Value

/-- The value that a literal stands for. -/
def ofLiteral : Literal → Value
  | .int value => .int value
  | .float value => .float value
  | .str value => .str value
  | .bool value => .bool value

/-- The type of a value. -/
def type : Value → ValueType
  | unit => .unit
  | bool _ => .bool
  | int _ => .int
  | float _ => .float
  | str _ => .string
  | function _ => .function

/-- Whether a condition with this value holds. Nothing, false, zero and the empty
    string do not count as true; a value that is no number does. -/
def isTruthy : Value → Bool
  | unit => false
  | bool value => value
  | int value => value ≠ 0
  | float value => value != 0
  | str value => !value.isEmpty
  | function _ => true

/-- The float closest to a number; other values have none. -/
def toFloat? : Value → Option Float
  | int value => some (.ofInt value.toInt)
  | float value => some value
  | _ => none

/-- Whether a value is a number. -/
def isNumeric (value : Value) : Bool :=
  value.toFloat?.isSome

/-- The text under which a value is printed. -/
def display : Value → String
  | unit => "None"
  | bool true => "HAI"
  | bool false => "IIE"
  | int value => toString value.toInt
  | float value => floatText value
  | str value => value
  | function closure => s!"<kawaii {closure.name}>"

/-- Whether two values are the same value of the same type. Floats are compared as
    numbers, so one that is no number is not even the same as itself, and functions
    by their stamps. -/
def same : Value → Value → Bool
  | unit, unit => true
  | bool a, bool b => a = b
  | int a, int b => a = b
  | float a, float b => a == b
  | str a, str b => a = b
  | function a, function b => a.stamp = b.stamp
  | _, _ => false

/-- Whether a program finds two values equal: as `same` does, but across the two
    types of numbers by their size. -/
def equals : Value → Value → Bool
  | int a, float b => Float.ofInt a.toInt == b
  | float a, int b => a == Float.ofInt b.toInt
  | a, b => a.same b

end Value
end KawaiiLang
