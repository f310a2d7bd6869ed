import KawaiiLang.Value.Basic
import KawaiiLang.Proofs.Decimal.Numeral
import KawaiiLang.Proofs.Decimal.Shortest
import KawaiiLang.Proofs.Decimal.Unpacked

namespace KawaiiLang

open Float.Model (UnpackedFloat)
open Float.Model.UnpackedFloat (Sign)

/-- What stands in front of the digits of a float. -/
def signText : Sign → String
  | .negative => "-"
  | .positive => ""

/-- The text of a float. One that is an integer has a zero behind the point, and any other the
    fewest places with which it is read back. -/
inductive FloatDisplays : UnpackedFloat → String → Prop where
  | notANumber : FloatDisplays .notANumber "NaN"
  | infinity (sign : Sign) : FloatDisplays (.infinity sign) (signText sign ++ "inf")
  | zero (sign : Sign) : FloatDisplays (.zero sign) (signText sign ++ "0.0")
  | integral (sign : Sign) {m : ℕ} {e : ℤ} {hm : 0 < m} {n : ℕ} {text : String}
      (hvalue : (m : ℚ) * 2 ^ e = n) (htext : Numeral n text.toList) :
      FloatDisplays (.finite sign m e hm) (signText sign ++ (text ++ ".0"))
  | fraction (sign : Sign) {m : ℕ} {e : ℤ} {hm : 0 < m} {digits places : ℕ} {text : String}
      (hvalue : ∀ n : ℕ, (m : ℚ) * 2 ^ e ≠ n) (hdecimal : IsShortest m e digits places)
      (htext : Positional digits places text.toList) :
      FloatDisplays (.finite sign m e hm) (signText sign ++ text)

/-- The text under which a value is printed. -/
inductive Value.Displays : Value → String → Prop where
  | unit : Displays .unit "None"
  | true : Displays (.bool true) "HAI"
  | false : Displays (.bool false) "IIE"
  | natural {n : Int64} {size : ℕ} {text : String} (hsize : n.toInt = size)
      (htext : Numeral size text.toList) : Displays (.int n) text
  | negative {n : Int64} {size : ℕ} {text : String} (hsize : n.toInt = -size) (hpos : 0 < size)
      (htext : Numeral size text.toList) : Displays (.int n) ("-" ++ text)
  | float {x : Float} {text : String} (htext : FloatDisplays x.toModel.unpack text) :
      Displays (.float x) text
  | str (text : String) : Displays (.str text) text
  | function (closure : Closure) : Displays (.function closure) ("<kawaii " ++ closure.name ++ ">")

theorem FloatDisplays.unique {x : UnpackedFloat} {text text' : String}
    (htext : FloatDisplays x text) (htext' : FloatDisplays x text') : text = text' := by
  cases htext with
  | notANumber | infinity | zero =>
    cases htext'
    rfl
  | integral sign hvalue hdigits =>
    cases htext' with
    | integral _ hvalue' hdigits' =>
      obtain rfl : _ = _ := Nat.cast_injective (R := ℚ) (hvalue.symm.trans hvalue')
      rw [String.toList_injective (hdigits.unique hdigits')]
    | fraction _ hvalue' => exact absurd hvalue (hvalue' _)
  | fraction sign hvalue hdecimal hdigits =>
    cases htext' with
    | integral _ hvalue' => exact absurd hvalue' (hvalue _)
    | fraction _ _ hdecimal' hdigits' =>
      obtain ⟨rfl, rfl⟩ := hdecimal.unique hdecimal'
      rw [String.toList_injective (hdigits.unique hdigits')]

/-- A value is printed as one text only. -/
theorem Value.Displays.unique {value : Value} {text text' : String}
    (htext : value.Displays text) (htext' : value.Displays text') : text = text' := by
  cases htext with
  | unit | true | false | str | function =>
    cases htext'
    rfl
  | natural hsize hdigits =>
    cases htext' with
    | natural hsize' hdigits' =>
      obtain rfl : _ = _ := Nat.cast_injective (R := ℤ) (hsize.symm.trans hsize')
      exact String.toList_injective (hdigits.unique hdigits')
    | negative hsize' hpos' => omega
  | negative hsize hpos hdigits =>
    cases htext' with
    | natural hsize' => omega
    | negative hsize' _ hdigits' =>
      obtain rfl : _ = _ := Nat.cast_injective (R := ℤ) (neg_injective (hsize.symm.trans hsize'))
      rw [String.toList_injective (hdigits.unique hdigits')]
  | float hdisplays =>
    cases htext' with
    | float hdisplays' => exact hdisplays.unique hdisplays'

namespace Dyadic

variable {size : Dyadic}

theorem ratio_pos (size : Dyadic) : 0 < size.ratio.2 :=
  Nat.pow_pos (by decide)

theorem value_mul_ratio (size : Dyadic) : size.value * size.ratio.2 = size.ratio.1 := by
  rw [value, zpow_eq_div two_ne_zero size.exponent]
  simp only [ratio, Nat.pow_eq]
  push_cast
  field_simp

theorem value_eq_natCast_iff {n : ℕ} : size.value = n ↔ size.ratio.1 = n * size.ratio.2 := by
  have hpos : (size.ratio.2 : ℚ) ≠ 0 := by exact_mod_cast size.ratio_pos.ne'
  rw [← Nat.cast_inj (R := ℚ), ← value_mul_ratio, Nat.cast_mul, mul_left_inj' hpos]

theorem isIntegral_iff : size.isIntegral = true ↔ ∃ n : ℕ, size.value = n := by
  simp only [value_eq_natCast_iff, isIntegral, decide_eq_true_eq, ← Nat.dvd_iff_mod_eq_zero]
  exact dvd_iff_exists_eq_mul_left

theorem floor_eq {n : ℕ} (hvalue : size.value = n) : size.floor = n := by
  rw [floor, value_eq_natCast_iff.mp hvalue, Nat.mul_div_cancel _ size.ratio_pos]

theorem text_of_value_eq {n : ℕ} (hvalue : size.value = n) : size.text = toString n ++ ".0" := by
  rw [text, if_pos (isIntegral_iff.mpr ⟨n, hvalue⟩), floor_eq hvalue]
  rfl

theorem text_zero (exponent : ℤ) (closeBelow : Bool) : text ⟨0, exponent, closeBelow⟩ = "0.0" := by
  have hvalue : value ⟨0, exponent, closeBelow⟩ = (0 : ℕ) := by rw [value, Nat.cast_zero, zero_mul]
  rw [text_of_value_eq hvalue]
  rfl

/-- The text of a size is that of a float of this size. -/
theorem displays_text (hsize : size.OfFloat) (sign : Sign) (hm : 0 < size.significand) :
    FloatDisplays (.finite sign size.significand size.exponent hm) (signText sign ++ size.text) := by
  by_cases hintegral : ∃ n : ℕ, size.value = n
  · obtain ⟨n, hvalue⟩ := hintegral
    rw [text_of_value_eq hvalue]
    exact .integral sign hvalue (.toString n)
  · rw [text, if_neg (mt isIntegral_iff.mp hintegral)]
    rw [not_exists] at hintegral
    obtain ⟨digits, places, hplaces, hshortest, hdecimal⟩ := shortest_spec hsize hintegral
    rw [hshortest]
    exact .fraction sign hintegral hdecimal (.positional digits hplaces)

end Dyadic

/-- A float is printed as its text. -/
theorem floatDisplays_floatText (x : Float) : FloatDisplays x.toModel.unpack (floatText x) := by
  have hshape : FloatShape.ofBits x.toBits.toNat = .ofUnpacked x.toModel.unpack :=
    FloatShape.ofBits_eq x.toModel.toBits.toBitVec
  rw [floatText, hshape]
  cases hfloat : x.toModel.unpack with
  | notANumber => exact .notANumber
  | infinity sign => cases sign <;> exact .infinity _
  | zero sign =>
    cases sign
    all_goals
      rw [FloatShape.ofUnpacked, FloatShape.text, Dyadic.text_zero]
      exact .zero _
  | finite sign m e hm =>
    have hsize : Dyadic.OfFloat ⟨m, e, m = 2 ^ 52 ∧ -1074 < e⟩ :=
      ⟨FloatShape.normalized_of_unpack hfloat, decide_eq_true_iff⟩
    cases sign <;> exact Dyadic.displays_text hsize _ hm

/-- Every value is printed as its display text and as nothing else. -/
theorem Value.displays_iff {value : Value} {text : String} :
    value.Displays text ↔ value.display = text := by
  have hdisplay : value.Displays value.display := by
    cases value with
    | unit => exact .unit
    | bool holds => cases holds <;> constructor
    | int n =>
      cases hn : n.toInt with
      | ofNat size =>
        rw [display, hn]
        exact .natural hn (.toString size)
      | negSucc size =>
        have hsize : n.toInt = -(size + 1 : ℕ) := hn
        rw [display, hn]
        exact .negative hsize size.succ_pos (.toString (size + 1))
    | float x => exact .float (floatDisplays_floatText x)
    | str text => exact .str text
    | function closure => exact .function closure
  constructor
  · exact hdisplay.unique
  · rintro rfl
    exact hdisplay

/-- The texts of some values with a blank between any two. -/
inductive Value.DisplayLine : List Value → String → Prop where
  | nil : DisplayLine [] ""
  | single {value : Value} {text : String} (htext : value.Displays text) :
      DisplayLine [value] text
  | cons {value next : Value} {rest : List Value} {text line : String}
      (htext : value.Displays text) (hline : DisplayLine (next :: rest) line) :
      DisplayLine (value :: next :: rest) (text ++ " " ++ line)

theorem Value.displayLine_iff {values : List Value} {line : String} :
    DisplayLine values line ↔ " ".intercalate (values.map display) = line := by
  constructor
  · intro hline
    induction hline with
    | nil => rfl
    | single htext => exact displays_iff.mp htext
    | cons htext _ ih =>
      rw [List.map_cons, List.map_cons, String.intercalate_cons_cons, displays_iff.mp htext,
        ← List.map_cons, ih]
  · rintro rfl
    induction values with
    | nil => exact .nil
    | cons value rest ih =>
      cases rest with
      | nil => exact .single (displays_iff.mpr rfl)
      | cons next rest =>
        rw [List.map_cons, List.map_cons, String.intercalate_cons_cons, ← List.map_cons]
        exact .cons (displays_iff.mpr rfl) ih

end KawaiiLang
