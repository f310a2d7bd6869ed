import Mathlib

namespace KawaiiLang

/-- The sizes of the finite floats: 53 bits for the significand, and a least exponent. Sizes
    beyond the largest float are on the same pattern. -/
def IsFloatSize (size : ℚ) : Prop :=
  ∃ m : ℕ, ∃ e : ℤ, m < 2 ^ 53 ∧ -1074 ≤ e ∧ size = m * 2 ^ e

/-- The significand and the exponent of a float as it stores them: the leading bit is used
    unless the exponent is the least one. -/
structure Normalized (m : ℕ) (e : ℤ) : Prop where
  pos : 0 < m
  lt : m < 2 ^ 53
  least : -1074 ≤ e
  leading : 2 ^ 52 ≤ m ∨ e = -1074

/-- `q` is read as the float of size `m * 2 ^ e`: no float is nearer, and of two that are as near
    it is the one with the even significand. -/
structure RoundsTo (q : ℚ) (m : ℕ) (e : ℤ) : Prop where
  nearest : ∀ size, IsFloatSize size → |q - m * 2 ^ e| ≤ |q - size|
  even : ∀ size, IsFloatSize size → size ≠ m * 2 ^ e → |q - m * 2 ^ e| = |q - size| → Even m

/-- How far it is to the next smaller float: at the powers of two only half as far as to the
    next larger one. -/
def gapBelow (m : ℕ) (e : ℤ) : ℚ :=
  if m = 2 ^ 52 ∧ -1074 < e then 2 ^ (e - 1) else 2 ^ e

theorem two_zpow_eq_add (e : ℤ) : (2 : ℚ) ^ e = 2 ^ (e - 1) + 2 ^ (e - 1) := by
  conv_lhs => rw [← Int.sub_add_cancel e 1, zpow_add_one₀ two_ne_zero]
  ring

theorem gapBelow_pos (m : ℕ) (e : ℤ) : 0 < gapBelow m e := by
  unfold gapBelow
  split <;> positivity

theorem gapBelow_le (m : ℕ) (e : ℤ) : gapBelow m e ≤ 2 ^ e := by
  unfold gapBelow
  split
  · linarith [two_zpow_eq_add e, zpow_pos (zero_lt_two (α := ℚ)) (e - 1)]
  · rfl

section Midpoint

variable {q v w : ℚ}

private theorem abs_sub_le_of_lt_iff (hvw : v < w) : |q - v| ≤ |q - w| ↔ q ≤ (v + w) / 2 := by
  rw [← sq_le_sq]
  constructor
  · intro hle
    by_contra hmiddle
    nlinarith
  · intro hmiddle
    nlinarith

private theorem abs_sub_le_of_gt_iff (hwv : w < v) : |q - v| ≤ |q - w| ↔ (v + w) / 2 ≤ q := by
  rw [← sq_le_sq]
  constructor
  · intro hle
    by_contra hmiddle
    nlinarith
  · intro hmiddle
    nlinarith

private theorem abs_sub_eq_iff (hvw : v ≠ w) : |q - v| = |q - w| ↔ q = (v + w) / 2 := by
  rw [abs_eq_abs]
  constructor
  · rintro (hsame | hmirrored)
    · exact absurd (sub_right_inj.mp hsame) hvw
    · linarith
  · rintro rfl
    right
    ring

end Midpoint

namespace Normalized

variable {m : ℕ} {e : ℤ} {q : ℚ}

theorem isFloatSize_above (hsize : Normalized m e) : IsFloatSize (m * 2 ^ e + 2 ^ e) := by
  by_cases hlast : m + 1 < 2 ^ 53
  · refine ⟨m + 1, e, hlast, hsize.least, ?_⟩
    push_cast
    ring
  · have hm : m = 2 ^ 53 - 1 := by
      have := hsize.lt
      omega
    refine ⟨2 ^ 52, e + 1, by decide, by linarith [hsize.least], ?_⟩
    rw [hm, zpow_add_one₀ two_ne_zero]
    push_cast
    ring

theorem isFloatSize_below (hsize : Normalized m e) :
    IsFloatSize (m * 2 ^ e - gapBelow m e) := by
  unfold gapBelow
  split
  · next hpower =>
    obtain ⟨rfl, he⟩ := hpower
    refine ⟨2 ^ 53 - 1, e - 1, by decide, by omega, ?_⟩
    rw [two_zpow_eq_add e]
    push_cast
    ring
  · refine ⟨m - 1, e, (Nat.sub_le m 1).trans_lt hsize.lt, hsize.least, ?_⟩
    rw [Nat.cast_pred hsize.pos]
    ring

/-- A float with an exponent that is no smaller is a multiple of `2 ^ e`, as the float is. -/
private theorem spacing_of_le {m' : ℕ} {e' : ℤ} (hexponent : e ≤ e') :
    (m' : ℚ) * 2 ^ e' = m * 2 ^ e ∨ m * 2 ^ e + 2 ^ e ≤ (m' : ℚ) * 2 ^ e' ∨
      (m' : ℚ) * 2 ^ e' ≤ m * 2 ^ e - gapBelow m e := by
  obtain ⟨j, rfl⟩ := Int.le.dest hexponent
  have hunit : (0 : ℚ) < 2 ^ e := by positivity
  have hother : (m' : ℚ) * 2 ^ (e + j : ℤ) = ((m' * 2 ^ j : ℕ) : ℚ) * 2 ^ e := by
    rw [zpow_add₀ two_ne_zero, zpow_natCast]
    push_cast
    ring
  rw [hother]
  obtain hlt | heq | hgt := lt_trichotomy (m' * 2 ^ j) m
  · right; right
    have hstep : ((m' * 2 ^ j : ℕ) : ℚ) + 1 ≤ m := by exact_mod_cast hlt
    nlinarith [gapBelow_le m e]
  · left
    rw [heq]
  · right; left
    have hstep : (m : ℚ) + 1 ≤ (m' * 2 ^ j : ℕ) := by exact_mod_cast hgt
    nlinarith

/-- A float with a smaller exponent lies below, as the leading bit is used here. -/
private theorem le_below_of_lt (hsize : Normalized m e) {m' : ℕ} {e' : ℤ} (hm' : m' < 2 ^ 53)
    (he' : -1074 ≤ e') (hexponent : e' < e) : (m' : ℚ) * 2 ^ e' ≤ m * 2 ^ e - gapBelow m e := by
  obtain ⟨j, hj⟩ := Int.le.dest (show e' ≤ e - 1 by omega)
  have hleading : 2 ^ 52 ≤ m := hsize.leading.resolve_right (by omega)
  have hunit : (0 : ℚ) < 2 ^ e' := by positivity
  have hpower : (1 : ℚ) ≤ 2 ^ j := one_le_pow₀ one_le_two
  have hhalf : (2 : ℚ) ^ (e - 1) = 2 ^ j * 2 ^ e' := by
    rw [← hj, zpow_add₀ two_ne_zero, zpow_natCast]
    ring
  have hm' : (m' : ℚ) + 1 ≤ 2 ^ 53 := by exact_mod_cast hm'
  unfold gapBelow
  split
  · next hclose =>
    rw [hclose.1, two_zpow_eq_add e, hhalf]
    push_cast
    nlinarith
  · next hclose =>
    have hgreater : (2 : ℚ) ^ 52 + 1 ≤ m := by
      have hne : m ≠ 2 ^ 52 := fun hm => hclose ⟨hm, by omega⟩
      exact_mod_cast Nat.lt_of_le_of_ne hleading hne.symm
    rw [two_zpow_eq_add e, hhalf]
    calc (m' : ℚ) * 2 ^ e' ≤ 2 ^ 53 * (1 * 2 ^ e') := by
          rw [one_mul]
          gcongr
          linarith
      _ ≤ 2 * (m - 1) * (2 ^ j * 2 ^ e') := by
          gcongr <;> linarith
      _ = m * (2 ^ j * 2 ^ e' + 2 ^ j * 2 ^ e') - (2 ^ j * 2 ^ e' + 2 ^ j * 2 ^ e') := by ring

/-- Between a float and its two neighbours there is no other one. -/
theorem spacing (hsize : Normalized m e) {size : ℚ} (hother : IsFloatSize size) :
    size = m * 2 ^ e ∨ m * 2 ^ e + 2 ^ e ≤ size ∨ size ≤ m * 2 ^ e - gapBelow m e := by
  obtain ⟨m', e', hm', he', rfl⟩ := hother
  obtain hexponent | hexponent := le_or_gt e e'
  · exact spacing_of_le hexponent
  · exact .inr (.inr (hsize.le_below_of_lt hm' he' hexponent))

/-- What is read as a float lies between the midpoints towards its neighbours, and on a midpoint
    only if the significand is even. -/
theorem roundsTo_iff (hsize : Normalized m e) :
    RoundsTo q m e ↔
      if Even m then m * 2 ^ e - gapBelow m e / 2 ≤ q ∧ q ≤ m * 2 ^ e + 2 ^ e / 2
      else m * 2 ^ e - gapBelow m e / 2 < q ∧ q < m * 2 ^ e + 2 ^ e / 2 := by
  have hunit : (0 : ℚ) < 2 ^ e := by positivity
  have hgap := gapBelow_pos m e
  constructor
  · intro hrounds
    have habove : q ≤ m * 2 ^ e + 2 ^ e / 2 := by
      have := (abs_sub_le_of_lt_iff (by linarith)).mp (hrounds.nearest _ hsize.isFloatSize_above)
      linarith
    have hbelow : m * 2 ^ e - gapBelow m e / 2 ≤ q := by
      have := (abs_sub_le_of_gt_iff (by linarith)).mp (hrounds.nearest _ hsize.isFloatSize_below)
      linarith
    split
    · exact ⟨hbelow, habove⟩
    · next hodd =>
      refine ⟨hbelow.lt_of_ne ?_, habove.lt_of_ne ?_⟩
      · rintro rfl
        refine hodd (hrounds.even _ hsize.isFloatSize_below (by linarith) ?_)
        exact (abs_sub_eq_iff (by linarith)).mpr (by ring)
      · rintro rfl
        refine hodd (hrounds.even _ hsize.isFloatSize_above (by linarith) ?_)
        exact (abs_sub_eq_iff (by linarith)).mpr (by ring)
  · intro hwithin
    have hbounds : m * 2 ^ e - gapBelow m e / 2 ≤ q ∧ q ≤ m * 2 ^ e + 2 ^ e / 2 := by
      split at hwithin
      · exact hwithin
      · exact ⟨hwithin.1.le, hwithin.2.le⟩
    refine ⟨?_, ?_⟩
    · intro size hother
      obtain rfl | habove | hbelow := hsize.spacing hother
      · rfl
      · exact (abs_sub_le_of_lt_iff (by linarith)).mpr (by linarith)
      · exact (abs_sub_le_of_gt_iff (by linarith)).mpr (by linarith)
    · intro size hother hne htie
      have hmiddle := (abs_sub_eq_iff hne.symm).mp htie
      by_contra hodd
      rw [if_neg hodd] at hwithin
      obtain rfl | habove | hbelow := hsize.spacing hother
      · exact hne rfl
      · linarith
      · linarith

theorem bounds_of_roundsTo (hsize : Normalized m e) (hrounds : RoundsTo q m e) :
    m * 2 ^ e - gapBelow m e / 2 ≤ q ∧ q ≤ m * 2 ^ e + 2 ^ e / 2 := by
  rw [hsize.roundsTo_iff] at hrounds
  split at hrounds
  · exact hrounds
  · exact ⟨hrounds.1.le, hrounds.2.le⟩

/-- A float is read as itself. -/
theorem roundsTo_self (hsize : Normalized m e) : RoundsTo (m * 2 ^ e) m e := by
  have hunit : (0 : ℚ) < 2 ^ e := by positivity
  have hgap := gapBelow_pos m e
  rw [hsize.roundsTo_iff]
  split <;> constructor <;> linarith

/-- Two numbers that are read as a float have only such numbers between them. -/
theorem roundsTo_between (hsize : Normalized m e) {low high : ℚ} (hlow : RoundsTo low m e)
    (hhigh : RoundsTo high m e) (hleft : low ≤ q) (hright : q ≤ high) : RoundsTo q m e := by
  rw [hsize.roundsTo_iff] at *
  by_cases heven : Even m
  · rw [if_pos heven] at *
    exact ⟨hlow.1.trans hleft, hright.trans hhigh.2⟩
  · rw [if_neg heven] at *
    exact ⟨hlow.1.trans_le hleft, hright.trans_lt hhigh.2⟩

/-- A size that is no integer has places behind the point. -/
theorem exponent_neg (hfraction : ∀ n : ℕ, (m : ℚ) * 2 ^ e ≠ n) : e < 0 := by
  by_contra hnot
  obtain ⟨j, rfl⟩ := Int.eq_ofNat_of_zero_le (not_lt.mp hnot)
  refine hfraction (m * 2 ^ j) ?_
  rw [zpow_natCast]
  push_cast
  rfl

/-- A float that is no integer is not what an integer is read as. -/
theorem not_roundsTo_natCast (hsize : Normalized m e) (hfraction : ∀ n : ℕ, (m : ℚ) * 2 ^ e ≠ n)
    (n : ℕ) : ¬ RoundsTo n m e := by
  intro hrounds
  have hnegative := exponent_neg hfraction
  obtain ⟨j, hj⟩ := Int.eq_ofNat_of_zero_le (show 0 ≤ -e by omega)
  have hunit : (0 : ℚ) < 2 ^ e := by positivity
  -- An integer is a multiple of `2 ^ e`, so it is a float of its own.
  have hn : (n : ℚ) = ((n * 2 ^ j : ℕ) : ℚ) * 2 ^ e := by
    rw [show e = -(j : ℤ) by omega, zpow_neg, zpow_natCast]
    push_cast
    field_simp
  have hne := hfraction n
  rw [hn] at hne hrounds
  have hgap := gapBelow_pos m e
  have hbounds := hsize.bounds_of_roundsTo hrounds
  obtain heq | habove | hbelow := @spacing_of_le m e (n * 2 ^ j) e (le_refl e)
  · exact hne heq.symm
  · linarith
  · linarith

end Normalized
end KawaiiLang
