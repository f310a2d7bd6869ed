namespace KawaiiLang

/-- Integers have 64 bits: they are less than this, and at least minus this. -/
def integerBound : Nat :=
  Nat.pow 2 63

/-- A constant as it can be written in a program. -/
inductive Literal where
  | int (value : Int64)
  | float (value : Float)
  | str (value : String)
  | bool (value : Bool)
  deriving DecidableEq, Inhabited

end KawaiiLang
