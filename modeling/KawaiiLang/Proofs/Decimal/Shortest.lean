import Mathlib
import KawaiiLang.Decimal.Shortest
import KawaiiLang.Proofs.Decimal.Rounding

namespace KawaiiLang

/-- `digits / 10 ^ places` is the shortest decimal that is read as the float of size
    `m * 2 ^ e`. Of several with so few places it is the nearest, and the larger one of two that
    are as near. -/
structure IsShortest (m : ℕ) (e : ℤ) (digits places : ℕ) : Prop where
  reads : RoundsTo (digits / 10 ^ places) m e
  fewest : ∀ digits' places' : ℕ, RoundsTo (digits' / 10 ^ places') m e → places ≤ places'
  nearest : ∀ digits' : ℕ, RoundsTo (digits' / 10 ^ places) m e →
    |(digits / 10 ^ places : ℚ) - m * 2 ^ e| ≤ |(digits' / 10 ^ places : ℚ) - m * 2 ^ e|
  larger : ∀ digits' : ℕ, RoundsTo (digits' / 10 ^ places) m e →
    |(digits' / 10 ^ places : ℚ) - m * 2 ^ e| = |(digits / 10 ^ places : ℚ) - m * 2 ^ e| →
    digits' ≤ digits

theorem IsShortest.unique {m : ℕ} {e : ℤ} {digits digits' places places' : ℕ}
    (hdecimal : IsShortest m e digits places) (hdecimal' : IsShortest m e digits' places') :
    digits = digits' ∧ places = places' := by
  obtain rfl : places = places' := Nat.le_antisymm (hdecimal.fewest _ _ hdecimal'.reads)
    (hdecimal'.fewest _ _ hdecimal.reads)
  have htie := le_antisymm (hdecimal.nearest _ hdecimal'.reads)
    (hdecimal'.nearest _ hdecimal.reads)
  exact ⟨Nat.le_antisymm (hdecimal'.larger _ hdecimal.reads htie)
    (hdecimal.larger _ hdecimal'.reads htie.symm), rfl⟩

/-- The fraction that turns places of binary digits into places of decimal ones is precise enough
    for all floats. -/
theorem two_zpow_bounds {n : ℤ} (hlow : -1100 < n) (hhigh : n < 1100) :
    (2 : ℚ) ^ n ≤ 10 ^ (n * 30103 / 100000 + 1) ∧ (10 : ℚ) ^ (n * 30103 / 100000) ≤ 2 ^ (n + 1) := by
  obtain ⟨k, rfl | rfl⟩ := n.eq_nat_or_neg
  · have hbounds : ∀ k < 1100, 2 ^ k ≤ 10 ^ (k * 30103 / 100000 + 1) ∧
        10 ^ (k * 30103 / 100000) ≤ 2 ^ (k + 1) := by decide +kernel
    obtain ⟨hfirst, hsecond⟩ := hbounds k (by omega)
    have hplaces : (k : ℤ) * 30103 / 100000 = (k * 30103 / 100000 : ℕ) := by push_cast; rfl
    rw [hplaces]
    constructor
    · exact_mod_cast hfirst
    · exact_mod_cast hsecond
  · have hbounds : ∀ k < 1100, 10 ^ ((k * 30103 + 99999) / 100000) ≤ 10 * 2 ^ k ∧
        2 ^ k ≤ 2 * 10 ^ ((k * 30103 + 99999) / 100000) := by decide +kernel
    obtain ⟨hfirst, hsecond⟩ := hbounds k (by omega)
    have hplaces : -(k : ℤ) * 30103 / 100000 = -((k * 30103 + 99999) / 100000 : ℕ) := by omega
    rw [hplaces, zpow_add_one₀ (by norm_num), zpow_add_one₀ two_ne_zero]
    simp only [zpow_neg, zpow_natCast]
    constructor
    · rw [inv_mul_eq_div, inv_eq_one_div, div_le_div_iff₀ (by positivity) (by positivity), one_mul]
      exact_mod_cast hfirst
    · rw [inv_mul_eq_div, inv_eq_one_div, div_le_div_iff₀ (by positivity) (by positivity), one_mul]
      exact_mod_cast hsecond

namespace Dyadic

/-- The number that a dyadic is. -/
def value (size : Dyadic) : ℚ :=
  size.significand * 2 ^ size.exponent

/-- The size of a float other than zero, as it is stored. -/
structure OfFloat (size : Dyadic) : Prop extends Normalized size.significand size.exponent where
  closeBelow_iff : size.closeBelow = true ↔ size.significand = 2 ^ 52 ∧ -1074 < size.exponent

/-- A number that is read as the float of this size. -/
abbrev Reads (size : Dyadic) (q : ℚ) : Prop :=
  RoundsTo q size.significand size.exponent

variable {size : Dyadic} {k : ℤ} {d d' x : ℕ}

/-- A power as a fraction of two whole ones. -/
theorem zpow_eq_div {b : ℚ} (hb : b ≠ 0) (n : ℤ) : b ^ n = b ^ n.toNat / b ^ (-n).toNat := by
  rw [← zpow_natCast, ← zpow_natCast, ← zpow_sub₀ hb]
  congr 1
  omega

theorem scale_pos (size : Dyadic) (k : ℤ) : 0 < (size.scale k).2 :=
  Nat.mul_pos (Nat.pow_pos (by decide)) (Nat.pow_pos (by decide))

/-- The scale is what it is said to be. -/
theorem scale_eq (size : Dyadic) (k : ℤ) :
    ((size.scale k).1 : ℚ) * 10 ^ k = (size.scale k).2 * 2 ^ (size.exponent - 2) := by
  rw [zpow_eq_div (b := 10) (by norm_num) k, zpow_eq_div two_ne_zero (size.exponent - 2)]
  simp only [scale, Nat.pow_eq]
  push_cast
  field_simp

section Scale

variable (size k)

private theorem scale_fst_mul (x : ℕ) :
    ((x * (size.scale k).1 : ℕ) : ℚ) * 10 ^ k =
      (x * 2 ^ (size.exponent - 2)) * (size.scale k).2 := by
  rw [Nat.cast_mul, mul_assoc, scale_eq]
  ring

private theorem scale_snd_mul (d : ℕ) :
    ((d * (size.scale k).2 : ℕ) : ℚ) * 10 ^ k = (d * 10 ^ k) * (size.scale k).2 := by
  rw [Nat.cast_mul]
  ring

end Scale

theorem mul_scale_le_iff :
    x * (size.scale k).1 ≤ d * (size.scale k).2 ↔ (x : ℚ) * 2 ^ (size.exponent - 2) ≤ d * 10 ^ k := by
  have hpos : (0 : ℚ) < (size.scale k).2 := by exact_mod_cast size.scale_pos k
  have hten : (0 : ℚ) < 10 ^ k := by positivity
  rw [← Nat.cast_le (α := ℚ), ← mul_le_mul_iff_left₀ hten, scale_fst_mul, scale_snd_mul,
    mul_le_mul_iff_left₀ hpos]

theorem le_mul_scale_iff :
    d * (size.scale k).2 ≤ x * (size.scale k).1 ↔ (d : ℚ) * 10 ^ k ≤ x * 2 ^ (size.exponent - 2) := by
  have hpos : (0 : ℚ) < (size.scale k).2 := by exact_mod_cast size.scale_pos k
  have hten : (0 : ℚ) < 10 ^ k := by positivity
  rw [← Nat.cast_le (α := ℚ), ← mul_le_mul_iff_left₀ hten, scale_fst_mul, scale_snd_mul,
    mul_le_mul_iff_left₀ hpos]

theorem mul_scale_lt_iff :
    x * (size.scale k).1 < d * (size.scale k).2 ↔ (x : ℚ) * 2 ^ (size.exponent - 2) < d * 10 ^ k := by
  rw [← not_le, le_mul_scale_iff, not_le]

theorem lt_mul_scale_iff :
    d * (size.scale k).2 < x * (size.scale k).1 ↔ (d : ℚ) * 10 ^ k < x * 2 ^ (size.exponent - 2) := by
  rw [← not_le, mul_scale_le_iff, not_le]

/-- Four quarters of a unit in the last place make up the unit. -/
theorem two_zpow_eq_four_mul (e : ℤ) : (2 : ℚ) ^ e = 4 * 2 ^ (e - 2) := by
  rw [zpow_sub₀ two_ne_zero]
  norm_num
  ring

namespace OfFloat

/-- The test of a decimal finds whether it is read as the float. -/
theorem readsBack_iff (hsize : size.OfFloat) :
    size.readsBack k d = true ↔ size.Reads (d * 10 ^ k) := by
  have hunit := two_zpow_eq_four_mul size.exponent
  have hhigh : ((4 * size.significand + 2 : ℕ) : ℚ) * 2 ^ (size.exponent - 2) =
      size.significand * 2 ^ size.exponent + 2 ^ size.exponent / 2 := by
    rw [hunit]
    push_cast
    ring
  have hlow : ((4 * size.significand - (if size.closeBelow then 1 else 2) : ℕ) : ℚ) *
      2 ^ (size.exponent - 2) =
      size.significand * 2 ^ size.exponent - gapBelow size.significand size.exponent / 2 := by
    have hpos := hsize.pos
    unfold gapBelow
    by_cases hclose : size.closeBelow = true
    · rw [if_pos hclose, if_pos (hsize.closeBelow_iff.mp hclose),
        Nat.cast_sub (by omega), two_zpow_eq_add (size.exponent - 1), hunit]
      rw [show size.exponent - 1 - 1 = size.exponent - 2 by ring]
      push_cast
      ring
    · rw [if_neg hclose, if_neg (mt hsize.closeBelow_iff.mpr hclose), Nat.cast_sub (by omega), hunit]
      push_cast
      ring
  rw [Reads, hsize.roundsTo_iff, ← hlow, ← hhigh]
  simp only [readsBack, Nat.even_iff]
  split
  · rw [Bool.and_eq_true, decide_eq_true_eq, decide_eq_true_eq, mul_scale_le_iff, le_mul_scale_iff]
  · rw [Bool.and_eq_true, decide_eq_true_eq, decide_eq_true_eq, mul_scale_lt_iff, lt_mul_scale_iff]

theorem reads_value (hsize : size.OfFloat) : size.Reads size.value :=
  hsize.roundsTo_self

end OfFloat

/-- `d * 10 ^ k` is what the grid of `10 ^ k` has to offer for a float: of the decimals on it that
    are read as the float it is the nearest, and the larger one of two that are as near. -/
structure IsNearest (size : Dyadic) (k : ℤ) (d : ℕ) : Prop where
  reads : size.Reads (d * 10 ^ k)
  nearest : ∀ d' : ℕ, size.Reads (d' * 10 ^ k) →
    |(d * 10 ^ k : ℚ) - size.value| ≤ |(d' * 10 ^ k : ℚ) - size.value|
  larger : ∀ d' : ℕ, size.Reads (d' * 10 ^ k) →
    |(d' * 10 ^ k : ℚ) - size.value| = |(d * 10 ^ k : ℚ) - size.value| → d' ≤ d

/-- The last multiple of `10 ^ k` that is not beyond a size. -/
def below (size : Dyadic) (k : ℤ) : ℕ :=
  4 * size.significand * (size.scale k).1 / (size.scale k).2

theorem value_eq (size : Dyadic) :
    size.value = (4 * size.significand : ℕ) * 2 ^ (size.exponent - 2) := by
  rw [value, two_zpow_eq_four_mul]
  push_cast
  ring

theorem below_le (size : Dyadic) (k : ℤ) : (size.below k : ℚ) * 10 ^ k ≤ size.value := by
  rw [value_eq, ← le_mul_scale_iff]
  exact Nat.div_mul_le_self _ _

theorem lt_above (size : Dyadic) (k : ℤ) : size.value < ((size.below k + 1 : ℕ) : ℚ) * 10 ^ k := by
  rw [value_eq, ← mul_scale_lt_iff, Nat.mul_comm (size.below k + 1)]
  exact Nat.lt_mul_div_succ _ (size.scale_pos k)

/-- Which of the two neighbours on the grid is nearer. -/
theorem nearer_iff (size : Dyadic) (k : ℤ) :
    4 * size.significand * (size.scale k).1 - size.below k * (size.scale k).2 <
        (size.below k + 1) * (size.scale k).2 - 4 * size.significand * (size.scale k).1 ↔
      size.value - size.below k * 10 ^ k < ((size.below k + 1 : ℕ) : ℚ) * 10 ^ k - size.value := by
  have hbelow : size.below k * (size.scale k).2 ≤ 4 * size.significand * (size.scale k).1 :=
    Nat.div_mul_le_self _ _
  have habove : 4 * size.significand * (size.scale k).1 < (size.below k + 1) * (size.scale k).2 := by
    rw [Nat.mul_comm (size.below k + 1)]
    exact Nat.lt_mul_div_succ _ (size.scale_pos k)
  rw [Nat.add_mul, Nat.one_mul] at habove
  have hmiddle : 4 * size.significand * (size.scale k).1 - size.below k * (size.scale k).2 <
        (size.below k + 1) * (size.scale k).2 - 4 * size.significand * (size.scale k).1 ↔
      2 * (4 * size.significand) * (size.scale k).1 <
        (size.below k + (size.below k + 1)) * (size.scale k).2 := by
    simp only [Nat.add_mul, Nat.one_mul, Nat.mul_assoc 2]
    omega
  rw [hmiddle, mul_scale_lt_iff, value_eq]
  push_cast
  constructor
  · intro hlt
    linarith
  · intro hlt
    linarith

namespace OfFloat

/-- A decimal below the size that is read as the float is no better than the grid's last one. -/
theorem reads_below (hsize : size.OfFloat) (hd : d ≤ size.below k) (hreads : size.Reads (d * 10 ^ k)) :
    size.Reads (size.below k * 10 ^ k) := by
  refine hsize.roundsTo_between hreads hsize.reads_value ?_ (size.below_le k)
  gcongr

theorem reads_above (hsize : size.OfFloat) (hd : size.below k + 1 ≤ d)
    (hreads : size.Reads (d * 10 ^ k)) : size.Reads ((size.below k + 1 : ℕ) * 10 ^ k) := by
  refine hsize.roundsTo_between hsize.reads_value hreads (size.lt_above k).le ?_
  gcongr

end OfFloat

theorem distance_below (hd : d ≤ size.below k) :
    |(d * 10 ^ k : ℚ) - size.value| = size.value - d * 10 ^ k := by
  have hle : (d : ℚ) * 10 ^ k ≤ size.below k * 10 ^ k := by gcongr
  rw [abs_sub_comm, abs_of_nonneg]
  linarith [size.below_le k]

theorem distance_above (hd : size.below k + 1 ≤ d) :
    |(d * 10 ^ k : ℚ) - size.value| = d * 10 ^ k - size.value := by
  have hle : ((size.below k + 1 : ℕ) : ℚ) * 10 ^ k ≤ d * 10 ^ k := by gcongr
  rw [abs_of_nonneg]
  linarith [size.lt_above k]

theorem grid_lt (hd : d < d') : (d : ℚ) * 10 ^ k < d' * 10 ^ k := by
  gcongr

/-- The neighbour below is the best decimal of the grid if the one above is further away or is not
    read as the float. -/
theorem isNearest_below (hsize : size.OfFloat) (hbelow : size.Reads (size.below k * 10 ^ k))
    (habove : size.Reads ((size.below k + 1 : ℕ) * 10 ^ k) →
      size.value - size.below k * 10 ^ k < ((size.below k + 1 : ℕ) : ℚ) * 10 ^ k - size.value) :
    size.IsNearest k (size.below k) := by
  have hten : (0 : ℚ) < 10 ^ k := by positivity
  have hother {d : ℕ} (hd : size.below k + 1 ≤ d) (hreads : size.Reads (d * 10 ^ k)) :
      size.value - size.below k * 10 ^ k < d * 10 ^ k - size.value := by
    have hle : ((size.below k + 1 : ℕ) : ℚ) * 10 ^ k ≤ d * 10 ^ k := by gcongr
    linarith [habove (hsize.reads_above hd hreads)]
  refine ⟨hbelow, ?_, ?_⟩
  · intro d hreads
    rw [distance_below (Nat.le_refl _)]
    obtain hd | hd := le_or_gt d (size.below k)
    · have hle : (d : ℚ) * 10 ^ k ≤ size.below k * 10 ^ k := by gcongr
      rw [distance_below hd]
      linarith
    · rw [distance_above hd]
      exact (hother hd hreads).le
  · intro d hreads htie
    by_contra hd
    have hd := Nat.lt_of_not_le hd
    rw [distance_below (Nat.le_refl _), distance_above hd] at htie
    exact absurd htie (hother hd hreads).ne'

/-- And the one above is the best if the one below is no nearer or is not read as the float. -/
theorem isNearest_above (hsize : size.OfFloat)
    (habove : size.Reads ((size.below k + 1 : ℕ) * 10 ^ k))
    (hbelow : size.Reads (size.below k * 10 ^ k) →
      ((size.below k + 1 : ℕ) : ℚ) * 10 ^ k - size.value ≤ size.value - size.below k * 10 ^ k) :
    size.IsNearest k (size.below k + 1) := by
  refine ⟨habove, ?_, ?_⟩
  · intro d hreads
    rw [distance_above (Nat.le_refl _)]
    obtain hd | hd := le_or_gt d (size.below k)
    · have hle : (d : ℚ) * 10 ^ k ≤ size.below k * 10 ^ k := by gcongr
      rw [distance_below hd]
      linarith [hbelow (hsize.reads_below hd hreads)]
    · have hle : ((size.below k + 1 : ℕ) : ℚ) * 10 ^ k ≤ d * 10 ^ k := by gcongr; exact hd
      rw [distance_above hd]
      linarith
  · intro d hreads htie
    by_contra hd
    have hd : size.below k + 1 < d := Nat.lt_of_not_le hd
    rw [distance_above (Nat.le_refl _), distance_above hd.le] at htie
    linarith [grid_lt (k := k) hd]

theorem onGrid?_eq (size : Dyadic) (k : ℤ) :
    size.onGrid? k =
      if size.readsBack k (size.below k) then
        if size.readsBack k (size.below k + 1) then
          if 4 * size.significand * (size.scale k).1 - size.below k * (size.scale k).2 <
              (size.below k + 1) * (size.scale k).2 - 4 * size.significand * (size.scale k).1 then
            some (size.below k)
          else some (size.below k + 1)
        else some (size.below k)
      else if size.readsBack k (size.below k + 1) then some (size.below k + 1) else none := by
  unfold onGrid? below
  obtain ⟨a, b⟩ := size.scale k
  dsimp only
  cases size.readsBack k (4 * size.significand * a / b) <;>
    cases size.readsBack k (4 * size.significand * a / b + 1) <;> rfl

/-- A grid either has nothing to offer or offers the best that is on it. -/
theorem onGrid?_cases (hsize : size.OfFloat) (k : ℤ) :
    (size.onGrid? k = none ∧ ∀ d : ℕ, ¬ size.Reads (d * 10 ^ k)) ∨
      ∃ d, size.onGrid? k = some d ∧ size.IsNearest k d := by
  rw [onGrid?_eq]
  by_cases hbelow : size.readsBack k (size.below k) = true
  · rw [if_pos hbelow]
    have hbelow := hsize.readsBack_iff.mp hbelow
    right
    by_cases habove : size.readsBack k (size.below k + 1) = true
    · rw [if_pos habove]
      have habove := hsize.readsBack_iff.mp habove
      by_cases hnearer : size.value - size.below k * 10 ^ k <
          ((size.below k + 1 : ℕ) : ℚ) * 10 ^ k - size.value
      · rw [if_pos ((size.nearer_iff k).mpr hnearer)]
        exact ⟨_, rfl, isNearest_below hsize hbelow fun _ => hnearer⟩
      · rw [if_neg (mt (size.nearer_iff k).mp hnearer)]
        exact ⟨_, rfl, isNearest_above hsize habove fun _ => not_lt.mp hnearer⟩
    · rw [if_neg habove]
      refine ⟨_, rfl, isNearest_below hsize hbelow fun hreads => ?_⟩
      exact absurd (hsize.readsBack_iff.mpr hreads) habove
  · rw [if_neg hbelow]
    by_cases habove : size.readsBack k (size.below k + 1) = true
    · rw [if_pos habove]
      refine .inr ⟨_, rfl, isNearest_above hsize (hsize.readsBack_iff.mp habove) fun hreads => ?_⟩
      exact absurd (hsize.readsBack_iff.mpr hreads) hbelow
    · rw [if_neg habove]
      refine .inl ⟨rfl, fun d hreads => ?_⟩
      -- What is on the grid at all lies on one of the two sides of its neighbours.
      obtain hd | hd := le_or_gt d (size.below k)
      · exact hbelow (hsize.readsBack_iff.mpr (hsize.reads_below hd hreads))
      · exact habove (hsize.readsBack_iff.mpr (hsize.reads_above hd hreads))

/-- The search stops at the first grid that has something to offer. -/
theorem search_eq (tries : ℕ) (hsize : size.OfFloat)
    (hsome : ∃ t < tries, ∃ d : ℕ, size.Reads (d * 10 ^ (k - t))) :
    ∃ d k', size.search k tries = ⟨d, k'⟩ ∧ size.IsNearest k' d ∧
      ∀ j ≤ k, k' < j → ∀ d : ℕ, ¬ size.Reads (d * 10 ^ j) := by
  induction tries generalizing k with
  | zero =>
    obtain ⟨t, ht, -⟩ := hsome
    cases ht
  | succ tries ih =>
    rw [search]
    obtain ⟨hnone, hnothing⟩ | ⟨d, hd, hnearest⟩ := onGrid?_cases hsize k
    · obtain ⟨t, ht, d, hreads⟩ := hsome
      -- The grid that is known to have something is not this one.
      obtain ⟨t, rfl⟩ : ∃ before, t = before + 1 := by
        refine Nat.exists_eq_succ_of_ne_zero ?_
        rintro rfl
        refine hnothing d ?_
        simpa using hreads
      have hlater : k - ((t + 1 : ℕ) : ℤ) = k - 1 - (t : ℤ) := by push_cast; ring
      rw [hlater] at hreads
      obtain ⟨d', k', hsearch, hnearest, hfirst⟩ := ih ⟨t, Nat.lt_of_succ_lt_succ ht, d, hreads⟩
      rw [hnone]
      refine ⟨d', k', hsearch, hnearest, ?_⟩
      intro j hj hk'
      obtain rfl | hlt := hj.eq_or_lt
      · exact hnothing
      · exact hfirst j (by omega) hk'
    · rw [hd]
      exact ⟨d, k, rfl, hnearest, fun j hj hk => absurd hj (not_le.mpr hk)⟩

/-- The decimal `d / 10 ^ places` on the grid of `10 ^ -places`. -/
theorem mul_zpow_neg (d places : ℕ) : (d : ℚ) * 10 ^ (-(places : ℤ)) = d / 10 ^ places := by
  rw [zpow_neg, zpow_natCast, div_eq_mul_inv]

section Fraction

variable (hsize : size.OfFloat) (hfraction : ∀ n : ℕ, size.value ≠ n)
include hsize hfraction

/-- The powers of ten and of two around the leading digit. -/
theorem leading_bounds :
    (2 : ℚ) ^ (size.exponent + Nat.log2 size.significand + 1) ≤ 10 ^ size.topExponent ∧
      (10 : ℚ) ^ (size.topExponent - 19) < 2 ^ size.exponent / 2 := by
  have hexponent := Normalized.exponent_neg hfraction
  have hleast := hsize.least
  have hlog : Nat.log2 size.significand < 53 := (Nat.log2_lt hsize.pos.ne').mpr hsize.lt
  let n := size.exponent + Nat.log2 size.significand + 1
  obtain ⟨hupper, hlower⟩ := two_zpow_bounds (n := n) (by omega) (by omega)
  refine ⟨hupper, ?_⟩
  calc (10 : ℚ) ^ (size.topExponent - 19) = 10 ^ (n * 30103 / 100000) / 10 ^ 18 := by
        rw [show size.topExponent - 19 = n * 30103 / 100000 - 18 by rw [topExponent]; ring,
          zpow_sub₀ (by norm_num)]
        rfl
    _ ≤ 2 ^ (n + 1) / 10 ^ 18 := by gcongr
    _ ≤ 2 ^ (size.exponent + 54) / 10 ^ 18 :=
        div_le_div_of_nonneg_right (zpow_le_zpow_right₀ one_le_two (by omega)) (by positivity)
    _ = 2 ^ size.exponent * (2 ^ 54 / 10 ^ 18) := by
        rw [zpow_add₀ two_ne_zero]
        norm_num
        ring
    _ < 2 ^ size.exponent * (1 / 2) := by
        refine mul_lt_mul_of_pos_left ?_ (by positivity)
        norm_num
    _ = 2 ^ size.exponent / 2 := by ring

/-- Beyond the leading digit there is nothing that is read as the float. -/
theorem not_reads_of_top_lt (hk : size.topExponent < k) (d : ℕ) : ¬ size.Reads (d * 10 ^ k) := by
  intro hreads
  have hunit : (0 : ℚ) < 2 ^ size.exponent := by positivity
  have hgap := gapBelow_le size.significand size.exponent
  have hpos : (1 : ℚ) ≤ size.significand := by exact_mod_cast hsize.pos
  obtain ⟨hlow, hhigh⟩ := hsize.bounds_of_roundsTo hreads
  obtain rfl | hd := Nat.eq_zero_or_pos d
  · rw [Nat.cast_zero, zero_mul] at hlow
    nlinarith
  · have hlog : (size.significand : ℚ) + 1 ≤ 2 ^ (Nat.log2 size.significand + 1) := by
      exact_mod_cast Nat.lt_log2_self
    have hd : (1 : ℚ) ≤ d := by exact_mod_cast hd
    have htop : (10 : ℚ) ^ size.topExponent < d * 10 ^ k := by
      calc (10 : ℚ) ^ size.topExponent < 1 * 10 ^ k := by
            rw [one_mul]
            exact zpow_lt_zpow_right₀ (by norm_num) hk
        _ ≤ d * 10 ^ k := by gcongr
    have hsum : ((size.significand : ℚ) + 1) * 2 ^ size.exponent ≤
        2 ^ (size.exponent + Nat.log2 size.significand + 1) := by
      calc ((size.significand : ℚ) + 1) * 2 ^ size.exponent
          ≤ 2 ^ (Nat.log2 size.significand + 1) * 2 ^ size.exponent := by gcongr
        _ = 2 ^ (size.exponent + Nat.log2 size.significand + 1) := by
            rw [add_assoc, zpow_add₀ two_ne_zero size.exponent, mul_comm]
            norm_cast
    linarith [(leading_bounds hsize hfraction).1]

/-- Nineteen places further there is a grid so fine that something on it is read as the float. -/
theorem reads_of_top_sub :
    size.Reads ((size.below (size.topExponent - 19) + 1 : ℕ) * 10 ^ (size.topExponent - 19)) := by
  have hbelow := size.below_le (size.topExponent - 19)
  have habove := size.lt_above (size.topExponent - 19)
  have hfine := (leading_bounds hsize hfraction).2
  have hgap := gapBelow_pos size.significand size.exponent
  rw [value] at hbelow habove
  push_cast at habove ⊢
  rw [Reads, hsize.roundsTo_iff]
  split <;> constructor <;> linarith

/-- What is printed of a float with places behind the point is the shortest decimal that is read as
    it. -/
theorem shortest_spec :
    ∃ digits places : ℕ, 0 < places ∧ size.shortest = ⟨digits, -(places : ℤ)⟩ ∧
      IsShortest size.significand size.exponent digits places := by
  obtain ⟨d, k, hsearch, hnearest, hfirst⟩ := search_eq 20 hsize
    ⟨19, by decide, _, reads_of_top_sub hsize hfraction⟩
  have hk : k < 0 := by
    by_contra hnot
    obtain ⟨j, rfl⟩ := Int.eq_ofNat_of_zero_le (not_lt.mp hnot)
    refine hsize.not_roundsTo_natCast hfraction (d * 10 ^ j) ?_
    push_cast
    exact hnearest.reads
  obtain ⟨places, hplaces⟩ := Int.eq_ofNat_of_zero_le (show 0 ≤ -k by omega)
  obtain rfl : k = -(places : ℤ) := by omega
  obtain ⟨hreads, hbest, hlarger⟩ := hnearest
  simp only [mul_zpow_neg] at hreads hbest hlarger
  refine ⟨d, places, by omega, hsearch, hreads, ?_, hbest, hlarger⟩
  intro digits' places' hreads'
  rw [← mul_zpow_neg] at hreads'
  by_contra hfewer
  by_cases htop : -(places' : ℤ) ≤ size.topExponent
  · exact hfirst _ htop (by omega) digits' hreads'
  · exact not_reads_of_top_lt hsize hfraction (not_le.mp htop) digits' hreads'

end Fraction

end Dyadic
end KawaiiLang
