import Mathlib
import KawaiiLang.Decimal.Dyadic
import KawaiiLang.Proofs.Decimal.Rounding

namespace KawaiiLang

open Float.Model (UnpackedFloat)
open Float.Model.UnpackedFloat (Sign)

namespace FloatShape

/-- The sign of a float as it is kept with its size. -/
def isNegative : Sign → Bool
  | .negative => true
  | .positive => false

/-- A float of the library, taken apart. -/
def ofUnpacked : UnpackedFloat → FloatShape
  | .notANumber => notNumber
  | .infinity sign => infinite (isNegative sign)
  | .zero sign => finite (isNegative sign) ⟨0, -1074, false⟩
  | .finite sign m e _ => finite (isNegative sign) ⟨m, e, m = 2 ^ 52 ∧ -1074 < e⟩

section Fields

variable (b : BitVec 64)

theorem toNat_unpackMantissa :
    (@UnpackedFloat.unpackMantissa .binary64 b).toNat = b.toNat % 2 ^ 52 := by
  rw [UnpackedFloat.unpackMantissa_def]
  simp

theorem toNat_unpackExponent :
    (@UnpackedFloat.unpackExponent .binary64 b).toNat = b.toNat / 2 ^ 52 % 2048 := by
  rw [UnpackedFloat.unpackExponent_def]
  simp [Nat.shiftRight_eq_div_pow]

theorem isNegative_unpackSign :
    isNegative (.ofBitVec (@UnpackedFloat.unpackSign .binary64 b)) =
      decide (b.toNat / 2 ^ 63 % 2 = 1) := by
  have hsign : (@UnpackedFloat.unpackSign .binary64 b).toNat = b.toNat / 2 ^ 63 % 2 := by
    rw [UnpackedFloat.unpackSign_def]
    simp [Nat.shiftRight_eq_div_pow]
  rw [← hsign]
  generalize @UnpackedFloat.unpackSign .binary64 b = bit
  revert bit
  decide

end Fields

/-- How the fields of a float's bits are put together. -/
inductive FieldsOf (sign : Sign) (field fraction : ℕ) : UnpackedFloat → Prop where
  | infinity (hfield : field = 2047) (hfraction : fraction = 0) :
      FieldsOf sign field fraction (.infinity sign)
  | notANumber (hfield : field = 2047) (hfraction : fraction ≠ 0) :
      FieldsOf sign field fraction .notANumber
  | zero (hfield : field = 0) (hfraction : fraction = 0) : FieldsOf sign field fraction (.zero sign)
  | subnormal (hfield : field = 0) (hm : 0 < fraction) :
      FieldsOf sign field fraction (.finite sign fraction (-1074) hm)
  | normal (hfield : field ≠ 2047) (hnonempty : field ≠ 0) (hm : 0 < 2 ^ 52 + fraction) :
      FieldsOf sign field fraction (.finite sign (2 ^ 52 + fraction) (field - 1075) hm)

theorem fieldsOf_unpack (b : BitVec 64) :
    FieldsOf (.ofBitVec (@UnpackedFloat.unpackSign .binary64 b))
      (b.toNat / 2 ^ 52 % 2048) (b.toNat % 2 ^ 52) (UnpackedFloat.unpack .binary64 b) := by
  have hlead : (1#1 ++ @UnpackedFloat.unpackMantissa .binary64 b).toNat =
      2 ^ 52 + (@UnpackedFloat.unpackMantissa .binary64 b).toNat := by
    rw [BitVec.toNat_append,
      ← Nat.shiftLeft_add_eq_or_of_lt (@UnpackedFloat.unpackMantissa .binary64 b).isLt]
    rfl
  rw [← toNat_unpackExponent, ← toNat_unpackMantissa]
  unfold UnpackedFloat.unpack
  dsimp only
  split
  · next hfull =>
    have hfield := congrArg BitVec.toNat hfull
    split
    · next hzero => exact .infinity hfield (congrArg BitVec.toNat hzero)
    · next hnonzero => exact .notANumber hfield fun h => hnonzero (BitVec.eq_of_toNat_eq h)
  · next hfull =>
    split
    · next hempty =>
      have hfield := congrArg BitVec.toNat hempty
      split
      · next hzero => exact .zero hfield (congrArg BitVec.toNat hzero)
      · next hnonzero =>
        rw [hempty]
        exact .subnormal rfl _
    · next hnonempty =>
      simp only [hlead]
      exact .normal (fun h => hfull (BitVec.eq_of_toNat_eq h))
        (fun h => hnonempty (BitVec.eq_of_toNat_eq h)) _

/-- The bits of a float are taken apart as the library does it. -/
theorem ofBits_eq (b : BitVec 64) :
    ofBits b.toNat = ofUnpacked (UnpackedFloat.unpack .binary64 b) := by
  have hsign := isNegative_unpackSign b
  have hfields := fieldsOf_unpack b
  unfold ofBits
  simp only [Nat.pow_eq]
  generalize UnpackedFloat.unpack .binary64 b = float at hfields
  generalize b.toNat / 2 ^ 52 % 2048 = field at *
  cases hfields with
  | infinity hfield hfraction => rw [if_pos hfield, if_pos hfraction, ofUnpacked, hsign]
  | notANumber hfield hfraction => rw [if_pos hfield, if_neg hfraction, ofUnpacked]
  | zero hfield hfraction =>
    subst hfield
    rw [if_neg (by decide), if_pos rfl, hfraction, ofUnpacked, hsign]
  | subnormal hfield hm =>
    subst hfield
    rw [if_neg (by decide), if_pos rfl, ofUnpacked, hsign]
    simp
  | normal hfield hnonempty hm =>
    rw [if_neg hfield, if_neg hnonempty, ofUnpacked, hsign]
    have hclose : (decide (b.toNat % 2 ^ 52 = 0) && decide (1 < field)) =
        decide (2 ^ 52 + b.toNat % 2 ^ 52 = 2 ^ 52 ∧ -1074 < (field : ℤ) - 1075) := by
      rw [← Bool.decide_and]
      exact decide_eq_decide.mpr (by omega)
    rw [hclose]

/-- What a finite float is unpacked to is normalized. -/
theorem normalized_of_unpack {b : BitVec 64} {sign : Sign} {m : ℕ} {e : ℤ} {hm : 0 < m}
    (hfloat : UnpackedFloat.unpack .binary64 b = .finite sign m e hm) : Normalized m e := by
  have hfields := fieldsOf_unpack b
  rw [hfloat] at hfields
  cases hfields with
  | subnormal => exact ⟨hm, by omega, by omega, .inr rfl⟩
  | normal => exact ⟨hm, by omega, by omega, .inl (by omega)⟩

end FloatShape
end KawaiiLang
