import Mathlib
import KawaiiLang.Decimal.Shortest

namespace KawaiiLang

/-- Digits only, of value `n` when they are read from the left. -/
structure DigitsOf (n : ℕ) (text : List Char) : Prop where
  digits : ∀ c ∈ text, c.isDigit = true
  value : Nat.ofDigitChars 10 text 0 = n

/-- A natural number as it is written: no zero stands in front of another digit. -/
structure Numeral (n : ℕ) (text : List Char) : Prop extends DigitsOf n text where
  ne_nil : text ≠ []
  leading : ∀ c cs, text ≠ '0' :: c :: cs

/-- The number `digits / 10 ^ places` written with so many places behind a point. -/
inductive Positional (digits places : ℕ) : List Char → Prop where
  | point {whole fraction : List Char} (hwhole : Numeral (digits / 10 ^ places) whole)
      (hfraction : DigitsOf (digits % 10 ^ places) fraction) (hlength : fraction.length = places) :
      Positional digits places (whole ++ '.' :: fraction)

/-- The number that a digit stands for. -/
private theorem exists_digitChar {c : Char} (hc : c.isDigit = true) :
    ∃ d < 10, c = Nat.digitChar d := by
  have hbounds : 48 ≤ c.toNat ∧ c.toNat ≤ 57 := by
    simpa [Char.isDigit, UInt32.le_iff_toNat_le] using hc
  refine ⟨c.toNat - 48, by omega, ?_⟩
  rw [← Char.toNat_inj, Nat.toNat_digitChar_of_lt_ten (by omega)]
  omega

namespace DigitsOf

variable {n m : ℕ} {text text' : List Char}

theorem cons_iff {d : ℕ} (hd : d < 10) {cs : List Char} :
    DigitsOf n (Nat.digitChar d :: cs) ↔ ∃ m, DigitsOf m cs ∧ n = 10 ^ cs.length * d + m := by
  have hvalue : Nat.ofDigitChars 10 (Nat.digitChar d :: cs) 0 =
      10 ^ cs.length * d + Nat.ofDigitChars 10 cs 0 := by
    rw [Nat.ofDigitChars_cons_digitChar_of_lt_ten hd, Nat.ofDigitChars_eq_ofDigitChars_zero]
    simp
  constructor
  · intro htext
    exact ⟨_, ⟨fun c hc => htext.digits c (List.mem_cons_of_mem _ hc), rfl⟩,
      htext.value.symm.trans hvalue⟩
  · rintro ⟨m, hcs, rfl⟩
    refine ⟨List.forall_mem_cons.mpr ⟨?_, hcs.digits⟩, by rw [hvalue, hcs.value]⟩
    rw [Nat.isDigit_digitChar]
    exact decide_eq_true hd

/-- So many digits stand for a number below that power of ten. -/
theorem lt (htext : DigitsOf n text) : n < 10 ^ text.length := by
  induction text generalizing n with
  | nil => simpa using htext.value.symm
  | cons c cs ih =>
    obtain ⟨d, hd, rfl⟩ := exists_digitChar (htext.digits c List.mem_cons_self)
    obtain ⟨m, hcs, rfl⟩ := (cons_iff hd).mp htext
    calc 10 ^ cs.length * d + m < 10 ^ cs.length * d + 10 ^ cs.length := by gcongr; exact ih hcs
      _ = 10 ^ cs.length * (d + 1) := by ring
      _ ≤ 10 ^ cs.length * 10 := by gcongr; omega
      _ = 10 ^ (Nat.digitChar d :: cs).length := by rw [List.length_cons, pow_succ]

/-- Of one length there is only one way to write a number. -/
theorem unique (htext : DigitsOf n text) (htext' : DigitsOf n text')
    (hlength : text.length = text'.length) : text = text' := by
  induction text generalizing n text' with
  | nil => exact (List.eq_nil_of_length_eq_zero hlength.symm).symm
  | cons c cs ih =>
    cases text' with
    | nil => cases hlength
    | cons c' cs' =>
      replace hlength : cs.length = cs'.length := by simpa using hlength
      obtain ⟨d, hd, rfl⟩ := exists_digitChar (htext.digits c List.mem_cons_self)
      obtain ⟨d', hd', rfl⟩ := exists_digitChar (htext'.digits c' List.mem_cons_self)
      obtain ⟨m, hcs, rfl⟩ := (cons_iff hd).mp htext
      obtain ⟨m', hcs', hsame⟩ := (cons_iff hd').mp htext'
      have hm := hcs.lt
      have hm' := hcs'.lt
      rw [← hlength] at hsame hm'
      -- The first digit is the quotient by the power of ten, and the others are the remainder.
      obtain ⟨hdigit, hrest⟩ := (Nat.div_mod_unique (by positivity)).mpr
        ⟨(Nat.add_comm _ _).trans hsame.symm, hm'⟩
      rw [Nat.mul_add_div (by positivity), Nat.div_eq_of_lt hm, Nat.add_zero] at hdigit
      rw [Nat.mul_add_mod, Nat.mod_eq_of_lt hm] at hrest
      rw [hdigit, ih hcs (hrest ▸ hcs') hlength]

theorem append_iff {front back : List Char} :
    DigitsOf n (front ++ back) ↔
      ∃ a b, DigitsOf a front ∧ DigitsOf b back ∧ n = 10 ^ back.length * a + b := by
  have hvalue : Nat.ofDigitChars 10 (front ++ back) 0 =
      10 ^ back.length * Nat.ofDigitChars 10 front 0 + Nat.ofDigitChars 10 back 0 := by
    rw [Nat.ofDigitChars_append, Nat.ofDigitChars_eq_ofDigitChars_zero]
  constructor
  · intro htext
    have hdigits := List.forall_mem_append.mp htext.digits
    exact ⟨_, _, ⟨hdigits.1, rfl⟩, ⟨hdigits.2, rfl⟩, htext.value.symm.trans hvalue⟩
  · rintro ⟨a, b, hfront, hback, rfl⟩
    refine ⟨List.forall_mem_append.mpr ⟨hfront.digits, hback.digits⟩, ?_⟩
    rw [hvalue, hfront.value, hback.value]

/-- The last digits are the remainder by a power of ten, and the others the quotient. -/
theorem split (htext : DigitsOf n text) (places : ℕ) (hplaces : places ≤ text.length) :
    DigitsOf (n / 10 ^ places) (text.take (text.length - places)) ∧
      DigitsOf (n % 10 ^ places) (text.drop (text.length - places)) ∧
      (text.drop (text.length - places)).length = places := by
  have hlength : (text.drop (text.length - places)).length = places := by
    rw [List.length_drop]
    omega
  rw [← List.take_append_drop (text.length - places) text] at htext
  obtain ⟨a, b, hfront, hback, rfl⟩ := append_iff.mp htext
  have hb := hback.lt
  rw [hlength] at hb ⊢
  rw [Nat.mul_add_div (by positivity), Nat.div_eq_of_lt hb, Nat.add_zero, Nat.mul_add_mod,
    Nat.mod_eq_of_lt hb]
  exact ⟨hfront, hback, rfl⟩

theorem toDigits (n : ℕ) : DigitsOf n (Nat.toDigits 10 n) where
  digits _ hc := Nat.isDigit_of_mem_toDigits (by decide) (Nat.le_refl 10) hc
  value := Nat.ofDigitChars_ten_toDigits

/-- Zeros in front change nothing. -/
theorem padded (htext : DigitsOf n text) (zeros : ℕ) :
    DigitsOf n (List.replicate zeros '0' ++ text) := by
  refine append_iff.mpr ⟨0, n, ⟨?_, ?_⟩, htext, by simp⟩
  · intro c hc
    rw [List.eq_of_mem_replicate hc]
    rfl
  · rw [Nat.ofDigitChars_replicate_zero, Nat.mul_zero]

end DigitsOf

namespace Numeral

variable {n : ℕ} {text text' : List Char}

/-- Only zero is written with a zero in front. -/
theorem le_of_two_le_length (htext : Numeral n text) (hlength : 2 ≤ text.length) :
    10 ^ (text.length - 1) ≤ n := by
  obtain _ | ⟨c, _ | ⟨c', cs⟩⟩ := text
  · cases hlength
  · simp at hlength
  · obtain ⟨d, hd, rfl⟩ := exists_digitChar (htext.digits c List.mem_cons_self)
    obtain ⟨m, -, rfl⟩ := (DigitsOf.cons_iff hd).mp htext.toDigitsOf
    have hpos : d ≠ 0 := by
      rintro rfl
      exact htext.leading c' cs rfl
    exact le_add_right (Nat.le_mul_of_pos_right _ (by omega))

theorem length_le (htext : Numeral n text) (htext' : DigitsOf n text') (hne : text' ≠ []) :
    text.length ≤ text'.length := by
  by_contra hlonger
  have hpos := List.length_pos_of_ne_nil hne
  have hle := htext.le_of_two_le_length (by omega)
  have hlt : n < 10 ^ (text.length - 1) :=
    htext'.lt.trans_le (Nat.pow_le_pow_right (by decide) (by omega))
  exact absurd hlt (Nat.not_lt.mpr hle)

/-- A number is written in one way only. -/
theorem unique (htext : Numeral n text) (htext' : Numeral n text') : text = text' :=
  htext.toDigitsOf.unique htext'.toDigitsOf
    (Nat.le_antisymm (htext.length_le htext'.toDigitsOf htext'.ne_nil)
      (htext'.length_le htext.toDigitsOf htext.ne_nil))

theorem toDigits (n : ℕ) : Numeral n (Nat.toDigits 10 n) where
  toDigitsOf := .toDigits n
  ne_nil := Nat.toDigits_ne_nil
  leading := by
    intro c cs hzero
    have hdigits := DigitsOf.toDigits n
    rw [hzero] at hdigits
    obtain ⟨m, hcs, rfl⟩ := (DigitsOf.cons_iff (d := 0) (by decide)).mp hdigits
    have hlength := (Nat.length_toDigits_le_iff (by decide) (Nat.succ_pos cs.length)).mpr hcs.lt
    rw [Nat.mul_zero, Nat.zero_add] at hzero
    rw [hzero] at hlength
    simp at hlength

theorem toString (n : ℕ) : Numeral n (ToString.toString n).toList := by
  rw [Nat.toString_eq_ofList_toDigits, String.toList_ofList]
  exact .toDigits n

end Numeral

namespace Positional

variable {digits places : ℕ} {text text' : List Char}

/-- A number is written with so many places in one way only. -/
theorem unique (htext : Positional digits places text) (htext' : Positional digits places text') :
    text = text' := by
  obtain ⟨hwhole, hfraction, hlength⟩ := htext
  obtain ⟨hwhole', hfraction', hlength'⟩ := htext'
  rw [hwhole.unique hwhole', hfraction.unique hfraction' (hlength.trans hlength'.symm)]

/-- A decimal is written out with its places, if it has any. -/
theorem positional (digits : ℕ) (hplaces : 0 < places) :
    Positional digits places (Decimal.positional ⟨digits, -places⟩).toList := by
  let text := Nat.toDigits 10 digits
  let padded := List.replicate (places + 1 - text.length) '0' ++ text
  have htoNat : (-(-(places : ℤ))).toNat = places := by omega
  have htext : (Decimal.positional ⟨digits, -places⟩).toList =
      padded.take (padded.length - places) ++ '.' :: padded.drop (padded.length - places) := by
    simp only [Decimal.positional, htoNat, if_neg hplaces.ne', String.toList_ofList]
    rfl
  have hlength : padded.length = max text.length (places + 1) := by
    simp only [padded, List.length_append, List.length_replicate]
    omega
  have hdigits : DigitsOf digits padded := (DigitsOf.toDigits digits).padded _
  obtain ⟨hwhole, hfraction, hfractionLength⟩ := hdigits.split places (by omega)
  have hwholeLength : (padded.take (padded.length - places)).length = padded.length - places := by
    rw [List.length_take]
    omega
  rw [htext]
  refine .point ⟨hwhole, ?_, ?_⟩ hfraction hfractionLength
  · intro hnil
    rw [hnil] at hwholeLength
    simp only [List.length_nil] at hwholeLength
    omega
  · -- Two digits in front of the point leave no room for padding.
    intro c cs hzero
    rw [hzero] at hwholeLength
    simp only [List.length_cons] at hwholeLength
    have hnone : places + 1 - text.length = 0 := by omega
    have hpadded : padded = text := by simp only [padded, hnone, List.replicate_zero, List.nil_append]
    rw [hpadded] at hzero
    refine (Numeral.toDigits digits).leading c (cs ++ text.drop (text.length - places)) ?_
    calc text = text.take (text.length - places) ++ text.drop (text.length - places) :=
          (List.take_append_drop _ _).symm
      _ = _ := by rw [hzero]; rfl

end Positional
end KawaiiLang
