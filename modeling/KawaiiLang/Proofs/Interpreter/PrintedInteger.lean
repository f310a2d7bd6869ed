import KawaiiLang.Proofs.Eval.Arithmetic
import KawaiiLang.Proofs.Parse.Line
import KawaiiLang.Proofs.Parse.Source
import KawaiiLang.Proofs.Token.Locality

namespace KawaiiLang

open Grammar (Phrase)
open Lexeme (Cuts cut)

namespace Lexeme

/-- Digits with nothing behind them are one integer, if it is not too large. -/
theorem cut_digits {c : Char} {cs : List Char} (hdigits : ∀ x ∈ c :: cs, x.isDigit = true) :
    cut c cs = ⟨integer (c :: cs), c :: cs, []⟩ := by
  obtain ⟨hc, hcs⟩ := List.forall_mem_cons.mp hdigits
  have hplain : c ∉ separators := not_mem_separators (by decide) hc
  have hquote : c ≠ '"' := by
    rintro rfl
    cases hc
  have hdrop : cs.dropWhile Char.isDigit = [] := List.dropWhile_eq_nil_iff.mpr hcs
  have htake : cs.takeWhile Char.isDigit = cs := List.takeWhile_eq_self_iff.mpr hcs
  rw [cut_of_not_mem_separators hplain, if_neg hquote, if_pos hc]
  obtain ⟨d, rest, hpoint, -⟩ | ⟨-, hnumber⟩ := number_cases c cs
  · rw [hdrop] at hpoint
    cases hpoint
  · rw [hnumber, hdrop, htake]

/-- A minus sign in front of a digit is a token of its own. -/
theorem cut_minus {d : Char} (hd : d.isDigit = true) (cs : List Char) :
    cut '-' (d :: cs) = ⟨.token (.symbol .minus) none, ['-'], d :: cs⟩ := by
  have hpair : Symbol.ofText? ['-', d] = none := by
    refine Option.eq_none_iff_forall_ne_some.mpr fun sign hsign => ?_
    have hspelling : sign.spelling.toList = ['-', d] := by simpa using List.find?_some hsign
    cases sign <;> cases hspelling
    cases hd
  have hsymbol : cut '-' (d :: cs) = symbol '-' (d :: cs) := rfl
  rw [hsymbol, symbol_of_single fun _ _ hcons => (List.cons.inj hcons).1 ▸ hpair]
  rfl

/-- The decimal digits of a natural number are an integer token with that number. -/
theorem cut_repr {n : Nat} (hn : n < integerBound) :
    ∃ d ds, n.repr.toList = d :: ds ∧ d.isDigit = true ∧
      cut d ds = ⟨.token .integer (some (.int (.ofNat n))), d :: ds, []⟩ := by
  obtain ⟨d, ds, hcons⟩ := List.exists_cons_of_ne_nil (Nat.toDigits_ne_nil (n := n) (b := 10))
  have hdigits : ∀ x ∈ d :: ds, x.isDigit = true := fun x hx =>
    Nat.isDigit_of_mem_toDigits (by decide) (Nat.le_refl 10) (hcons ▸ hx)
  have hvalue : Nat.ofDigitChars 10 (d :: ds) 0 = n := hcons ▸ Nat.ofDigitChars_ten_toDigits
  refine ⟨d, ds, Nat.toList_repr.trans hcons, hdigits d List.mem_cons_self, ?_⟩
  rw [cut_digits hdigits, integer, hvalue]
  simp only [if_pos hn]

end Lexeme

/-- Every integer of 64 bits passes the check. -/
theorem checkedInt_toInt (n : Int64) : checkedInt n.toInt = .ok (.int n) := by
  rw [checkedInt_eq, if_pos (representable_toInt n), Int64.ofInt_toInt]

theorem Eval.evaluate_literal (limit fuel : Nat) (value : Literal) (span : Span)
    (machine : Machine) :
    evaluate limit (fuel + 1) (.literal value span) machine = .ok (.ofLiteral value) machine := by
  rw [evaluate_succ]
  rfl

/-- The tokens are those of an expression that has the given value on every machine. -/
def Token.MeanInt (words : List Token) (n : Int64) : Prop :=
  ∃ expression, Phrase.expression.Derives words expression [] ∧
    ∀ limit fuel machine, 2 ≤ fuel →
      Eval.evaluate limit fuel expression machine = .ok (.int n) machine

section Means

variable {n : Int64} {minus token : Token}

theorem Token.meanInt_literal (hkind : token.kind = .integer)
    (hliteral : token.literal = some (.int n)) : MeanInt [token] n := by
  refine ⟨_, .expression (.simple (.term (.integer hkind hliteral))), ?_⟩
  intro limit fuel machine hfuel
  obtain ⟨fuel, rfl⟩ := Nat.exists_eq_add_of_le' hfuel
  exact Eval.evaluate_literal limit (fuel + 1) (.int n) token.span machine

theorem Token.meanInt_negation {value : Int64} (hminus : minus.kind = .symbol .minus)
    (hkind : token.kind = .integer) (hliteral : token.literal = some (.int value))
    (hvalue : -value.toInt = n.toInt) : MeanInt [minus, token] n := by
  refine ⟨_, .expression (.simple (.term (.negation hminus (.integer hkind hliteral)))), ?_⟩
  intro limit fuel machine hfuel
  obtain ⟨fuel, rfl⟩ := Nat.exists_eq_add_of_le' hfuel
  have happly : UnaryOp.negate.apply (.int value) = .ok (.int n) := by
    rw [UnaryOp.apply, hvalue, checkedInt_toInt]
  have hoperand := Eval.evaluate_literal limit fuel (.int value) token.span machine
  rw [Eval.evaluate_succ, Eval.evaluateWith, bind_of_eq_ok hoperand, Value.ofLiteral, happly]
  rfl

end Means

/-- An integer other than the least one is printed as tokens that mean it. -/
theorem Value.cuts_display {n : Int64} (hn : n.toInt ≠ -2 ^ 63) :
    ∃ words, Cuts .start (Value.int n).display.toList words ∧ Token.MeanInt words n := by
  have hle := n.le_toInt
  have hlt := n.toInt_lt
  cases hsign : n.toInt with
  | ofNat k =>
    have hk : k < integerBound := by
      rw [hsign, Int.ofNat_eq_natCast] at hlt
      exact_mod_cast hlt
    have hdisplay : (Value.int n).display = k.repr := by
      rw [display, hsign]
      rfl
    have hvalue : Int64.ofNat k = n := by
      rw [← Int64.toInt_inj, Int64.toInt_ofNat_of_lt hk, hsign]
      rfl
    obtain ⟨d, ds, hdigits, -, hcut⟩ := Lexeme.cut_repr hk
    rw [hdisplay, hdigits]
    exact ⟨_, Cuts.of_cut hcut (.nil _), Token.meanInt_literal rfl (by rw [← hvalue]; rfl)⟩
  | negSucc k =>
    have hk : k + 1 < integerBound := by
      have hbound : integerBound = 2 ^ 63 := rfl
      omega
    have hdisplay : (Value.int n).display = "-" ++ (k + 1).repr := by
      rw [display, hsign]
      rfl
    have hvalue : -(Int64.ofNat (k + 1)).toInt = n.toInt := by
      rw [Int64.toInt_ofNat_of_lt hk, hsign]
      rfl
    obtain ⟨d, ds, hdigits, hd, hcut⟩ := Lexeme.cut_repr hk
    rw [hdisplay, String.toList_append, hdigits]
    exact ⟨_, .of_cut (Lexeme.cut_minus hd ds) (.of_cut hcut (.nil _)),
      Token.meanInt_negation rfl rfl rfl hvalue⟩

/-- The expression that all words of a text make up is read as a line. -/
theorem Line.ofTokens_of_derives {text : String} {words : List Token} {expression : Expr}
    (hcuts : Cuts .start text.toList words)
    (hexpression : Phrase.expression.Derives words expression []) :
    ∃ tokens, Token.ofSource text = .ok tokens ∧
      ofTokens tokens = .ok (.expression expression) := by
  have htokens := Token.ofSource_of_cuts hcuts
  have hlexed := Token.asLexed_of_ofSource htokens
  have hwords : ∀ word ∈ words, word.kind ≠ .endOfInput := fun _ => hcuts.kind_ne_endOfInput
  have hliterate : ∀ word ∈ words, word.Literate :=
    fun word hword => hlexed.literate word (List.mem_append_left _ hword)
  exact ⟨_, htokens, (ofTokens_append_eq_ok_iff rfl hwords hliterate).mpr (.expression hexpression)⟩

/-- Printed integers are read back: the text of an integer is an expression with its value, on
    every machine. As a sign is no part of a literal, the digits of the least integer are too many
    for one. -/
theorem Value.display_reads_back (n : Int64) :
    (n.toInt ≠ -2 ^ 63 → ∃ tokens expression, Token.ofSource (Value.int n).display = .ok tokens ∧
      Line.ofTokens tokens = .ok (.expression expression) ∧
      ∀ limit fuel machine, 2 ≤ fuel →
        Eval.evaluate limit fuel expression machine = .ok (.int n) machine) ∧
    (n.toInt = -2 ^ 63 → Token.ofSource (Value.int n).display =
      .error ⟨.integerTooLarge "9223372036854775808", ⟨1, 20⟩, ⟨1, 2⟩⟩) := by
  constructor
  · intro hn
    obtain ⟨words, hcuts, expression, hexpression, hvalue⟩ := cuts_display hn
    obtain ⟨tokens, htokens, hline⟩ := Line.ofTokens_of_derives hcuts hexpression
    exact ⟨tokens, expression, htokens, hline, hvalue⟩
  · intro hn
    obtain rfl : n = Int64.minValue := Int64.toInt_inj.mp hn
    decide +kernel

/-- The integers at both ends and the one next to the least. -/
theorem Value.display_reads_back_bounds :
    Token.ofSource "-9223372036854775808" =
      .error ⟨.integerTooLarge "9223372036854775808", ⟨1, 20⟩, ⟨1, 2⟩⟩ ∧
    ∀ n ∈ [Int64.minValue + 1, Int64.maxValue], ∃ tokens expression,
      Token.ofSource (Value.int n).display = .ok tokens ∧
      Line.ofTokens tokens = .ok (.expression expression) ∧
      Eval.evaluate 0 2 expression (.start default default) =
        .ok (.int n) (.start default default) := by
  refine ⟨(display_reads_back Int64.minValue).2 rfl, ?_⟩
  intro n hn
  have hleast : n.toInt ≠ -2 ^ 63 := by
    simp only [List.mem_cons, List.not_mem_nil, or_false] at hn
    obtain rfl | rfl := hn <;> decide
  obtain ⟨tokens, expression, htokens, hline, hvalue⟩ := (display_reads_back n).1 hleast
  exact ⟨tokens, expression, htokens, hline, hvalue _ _ _ (Nat.le_refl 2)⟩

end KawaiiLang
