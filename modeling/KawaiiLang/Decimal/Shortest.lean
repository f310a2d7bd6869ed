import KawaiiLang.Decimal.Dyadic

namespace KawaiiLang

/-- The decimal `digits * 10 ^ exponent`. -/
structure Decimal where
  digits : Nat
  exponent : Int
  deriving DecidableEq, Inhabited

namespace Dyadic

/-- The scale that compares a dyadic with the multiples of `10 ^ k`: with
    `(a, b) = size.scale k`, a quarter of a unit in the last place of `size` is
    `a / b` times `10 ^ k`. Quarters are fine enough for the value itself and for
    both ends of the interval that rounds to it. -/
def scale (size : Dyadic) (k : Int) : Nat × Nat :=
  let shift := size.exponent - 2
  (Nat.pow 2 shift.toNat * Nat.pow 10 (-k).toNat,
    Nat.pow 2 (-shift).toNat * Nat.pow 10 k.toNat)

/-- Whether `d * 10 ^ k` rounds to `size` when it is read as a float: it lies
    between the midpoints towards the two neighbours, and on a midpoint only if the
    significand is even, as ties go to the even one. -/
def readsBack (size : Dyadic) (k : Int) (d : Nat) : Bool :=
  let (a, b) := size.scale k
  let low := (4 * size.significand - if size.closeBelow then 1 else 2) * a
  let high := (4 * size.significand + 2) * a
  if size.significand % 2 = 0 then low ≤ d * b && d * b ≤ high else low < d * b && d * b < high

/-- The multiple of `10 ^ k` nearest to `size` among its two neighbours on that
    grid that read back, the larger one on a tie; nothing if neither does. -/
def onGrid? (size : Dyadic) (k : Int) : Option Nat :=
  let (a, b) := size.scale k
  let value := 4 * size.significand * a
  let below := value / b
  let above := below + 1
  match size.readsBack k below, size.readsBack k above with
  | true, true => if value - below * b < above * b - value then some below else some above
  | true, false => some below
  | false, true => some above
  | false, false => none

/-- A decimal exponent that is not below that of the leading digit of `size`; the
    fraction is a little more than the logarithm of two. -/
def topExponent (size : Dyadic) : Int :=
  (size.exponent + Nat.log2 size.significand + 1) * 30103 / 100000 + 1

/-- Tries the grids of `10 ^ k`, `10 ^ (k - 1)` and so on. -/
def search (size : Dyadic) (k : Int) : Nat → Decimal
  | 0 => ⟨4 * size.significand * (size.scale k).1 / (size.scale k).2, k⟩
  | tries + 1 =>
    match size.onGrid? k with
    | some digits => ⟨digits, k⟩
    | none => size.search (k - 1) tries

/-- The decimal with the fewest digits that reads back as `size`, and of several
    such the nearest. Seventeen digits always suffice, and the search starts at most
    three places above the first of them. -/
def shortest (size : Dyadic) : Decimal :=
  size.search size.topExponent 20

end Dyadic

namespace Decimal

/-- The decimal written out without an exponent. -/
def positional (decimal : Decimal) : String :=
  let digits := Nat.toDigits 10 decimal.digits
  let places := (-decimal.exponent).toNat
  if places = 0 then
    String.ofList (digits ++ List.replicate decimal.exponent.toNat '0')
  else
    let padded := List.replicate (places + 1 - digits.length) '0' ++ digits
    let whole := padded.length - places
    String.ofList (padded.take whole ++ '.' :: padded.drop whole)

end Decimal
end KawaiiLang
