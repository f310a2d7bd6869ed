namespace KawaiiLang

/-- The size of a finite 64-bit float: `significand * 2 ^ exponent`. -/
structure Dyadic where
  significand : Nat
  exponent : Int
  /-- Whether the next smaller float is only half as far away as the next larger
      one, which is so at the powers of two. -/
  closeBelow : Bool
  deriving DecidableEq, Inhabited

/-- A float taken apart. -/
inductive FloatShape where
  | notNumber
  | infinite (negative : Bool)
  | finite (negative : Bool) (size : Dyadic)
  deriving DecidableEq, Inhabited

/-- Reads the sign, the exponent and the significand off the bits of a float. The
    smallest exponent field belongs to numbers without a leading bit, the largest
    to infinities and to values that are no numbers. -/
def FloatShape.ofBits (bits : Nat) : FloatShape :=
  let lead := Nat.pow 2 52
  let negative := bits / Nat.pow 2 63 % 2 = 1
  let field : Nat := bits / lead % 2048
  let fraction := bits % lead
  if field = 2047 then
    if fraction = 0 then .infinite negative else .notNumber
  else if field = 0 then
    .finite negative ⟨fraction, -1074, false⟩
  else
    .finite negative ⟨lead + fraction, (field : Int) - 1075, fraction = 0 && 1 < field⟩

namespace Dyadic

/-- The number as a fraction of two naturals. -/
def ratio (size : Dyadic) : Nat × Nat :=
  (size.significand * Nat.pow 2 size.exponent.toNat, Nat.pow 2 (-size.exponent).toNat)

/-- The part of the number before the point. -/
def floor (size : Dyadic) : Nat :=
  size.ratio.1 / size.ratio.2

/-- Whether nothing stands behind the point. -/
def isIntegral (size : Dyadic) : Bool :=
  size.ratio.1 % size.ratio.2 = 0

end Dyadic
end KawaiiLang
