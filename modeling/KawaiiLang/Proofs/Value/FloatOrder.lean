import KawaiiLang.Eval.Operator

namespace KawaiiLang

open Float.Model (UnpackedFloat)

/-- If two floats change places, their order is turned round, and they still have none if they had
    none. -/
theorem unpacked_compare_swap (a b : UnpackedFloat) :
    b.compare a = (a.compare b).map Ordering.swap := by
  cases a with
  | notANumber => cases b <;> rfl
  | infinity sign =>
    cases b with
    | infinity sign' => cases sign <;> cases sign' <;> rfl
    | notANumber | zero | finite => cases sign <;> rfl
  | zero sign =>
    cases b with
    | infinity sign' | finite sign' => cases sign' <;> rfl
    | notANumber | zero => rfl
  | finite sign m e =>
    cases b with
    | infinity sign' => cases sign' <;> rfl
    | notANumber => rfl
    | zero => cases sign <;> rfl
    | finite sign' m' e' =>
      have hsize : (compare e' e).then (compare m' m) =
          ((compare e e').then (compare m m')).swap := by
        rw [Ordering.swap_then, ← Std.OrientedOrd.eq_swap, ← Std.OrientedOrd.eq_swap]
      -- Of two negative numbers the one of the smaller size is the greater one.
      cases sign <;> cases sign'
      case negative.negative => exact congrArg (fun order => some order.swap) hsize
      case positive.positive => exact congrArg some hsize
      all_goals rfl

theorem float_lt_iff {x y : Float} :
    x < y ↔ x.toModel.unpack.compare y.toModel.unpack = some .lt := by
  change decide ((_ == _) = true) = true ↔ _
  simp

theorem float_beq_eq (x y : Float) :
    (x == y) = (x.toModel.unpack.compare y.toModel.unpack == some .eq) :=
  rfl

/-- Asking whether a float is less than another, equal to it or greater finds their order. -/
theorem compareFloats_eq (x y : Float) :
    compareFloats x y = x.toModel.unpack.compare y.toModel.unpack := by
  rw [compareFloats]
  simp only [float_lt_iff, float_beq_eq, unpacked_compare_swap x.toModel.unpack]
  cases x.toModel.unpack.compare y.toModel.unpack with
  | none => rfl
  | some order => cases order <;> rfl

/-- How two floats compare. Two of which neither is less, nor both are equal, have no order. -/
inductive FloatOrder (x y : Float) : Option Ordering → Prop where
  | less (hless : x < y) : FloatOrder x y (some .lt)
  | equal (hequal : (x == y) = true) : FloatOrder x y (some .eq)
  | greater (hgreater : y < x) : FloatOrder x y (some .gt)
  | unordered (hless : ¬ x < y) (hequal : (x == y) = false) (hgreater : ¬ y < x) :
      FloatOrder x y none

theorem compareFloats_swap (x y : Float) :
    compareFloats y x = (compareFloats x y).map Ordering.swap := by
  rw [compareFloats_eq, compareFloats_eq, unpacked_compare_swap]

theorem beq_iff_compareFloats {x y : Float} : (x == y) = true ↔ compareFloats x y = some .eq := by
  rw [compareFloats_eq, float_beq_eq, beq_iff_eq]

theorem lt_iff_compareFloats {x y : Float} : x < y ↔ compareFloats x y = some .lt := by
  rw [compareFloats_eq, float_lt_iff]

theorem gt_iff_compareFloats {x y : Float} : y < x ↔ compareFloats x y = some .gt := by
  rw [lt_iff_compareFloats, compareFloats_swap, Option.map_eq_some_iff]
  constructor
  · rintro ⟨order, horder, hswap⟩
    cases order <;> cases hswap
    exact horder
  · intro horder
    exact ⟨.gt, horder, rfl⟩

/-- Two floats compare in one way only. -/
theorem floatOrder_iff {x y : Float} {order : Option Ordering} :
    FloatOrder x y order ↔ compareFloats x y = order := by
  constructor
  · intro horder
    cases horder with
    | less hless => exact lt_iff_compareFloats.mp hless
    | equal hequal => exact beq_iff_compareFloats.mp hequal
    | greater hgreater => exact gt_iff_compareFloats.mp hgreater
    | unordered hless hequal hgreater =>
      rw [compareFloats, if_neg hless, if_neg (Bool.eq_false_iff.mp hequal), if_neg hgreater]
  · intro horder
    cases order with
    | none =>
      refine .unordered ?_ ?_ ?_
      · rw [lt_iff_compareFloats, horder]
        simp
      · rw [Bool.eq_false_iff, Ne, beq_iff_compareFloats, horder]
        simp
      · rw [gt_iff_compareFloats, horder]
        simp
    | some order =>
      cases order with
      | lt => exact .less (lt_iff_compareFloats.mpr horder)
      | eq => exact .equal (beq_iff_compareFloats.mpr horder)
      | gt => exact .greater (gt_iff_compareFloats.mpr horder)

theorem float_beq_comm (x y : Float) : (x == y) = (y == x) := by
  rw [Bool.eq_iff_iff, beq_iff_compareFloats, beq_iff_compareFloats, compareFloats_swap]
  simp

end KawaiiLang
