import KawaiiLang.Proofs.Token.Tiling

namespace KawaiiLang

open Lexeme (Cuts cut cut_text_append_rest cut_text_ne_nil)

/-- The span holds at least one character, and all of its characters are in a text of the given
    length. -/
structure Span.InText (length : Nat) (span : Span) : Prop where
  start_lt_stop : span.start < span.stop
  stop_le : span.stop ≤ length

/-- Spans that are joined stay in the text, in whichever order they come. -/
theorem Span.InText.through {length : Nat} {first last : Span} (hfirst : first.InText length)
    (hlast : last.InText length) : (first.through last).InText length where
  start_lt_stop := Nat.lt_of_lt_of_le hfirst.start_lt_stop (Nat.le_max_right _ _)
  stop_le := Nat.max_le.mpr ⟨hlast.stop_le, hfirst.stop_le⟩

/-- What is cut off a text behind `before` lies in that text. -/
theorem Lexeme.inText_cut (before : List Char) (c : Char) (cs : List Char) :
    Span.InText (before ++ c :: cs).length
      ⟨before.length, before.length + (cut c cs).text.length⟩ where
  start_lt_stop := Nat.lt_add_of_pos_right (List.length_pos_iff.mpr (cut_text_ne_nil c cs))
  stop_le := by
    rw [← cut_text_append_rest c cs, List.length_append, List.length_append]
    exact Nat.add_le_add_left (Nat.le_add_right _ _) _

/-- A scan that ends in an error has come upon a lexeme that is a fault, and says where it
    stands. -/
theorem Lexer.scan_eq_error {lexer : Lexer} {error : LexError}
    (hscan : lexer.scan.1 = .error error) :
    ∃ before c cs, lexer.rest = before ++ c :: cs ∧ (cut c cs).found = .fault error.fault ∧
      error.span = ⟨(lexer.mark.after before).offset,
        (lexer.mark.after before).offset + (cut c cs).text.length⟩ ∧
      error.position = (lexer.mark.after before).position := by
  fun_induction scan lexer with
  | case1 => cases hscan
  | case2 c cs mark pending lexeme hfound ih | case3 c cs mark pending lexeme kind literal hfound ih =>
    obtain ⟨before, d, ds, hrest, hfault, hspan, hposition⟩ := ih hscan
    refine ⟨lexeme.text ++ before, d, ds, ?_, hfault, ?_⟩
    · rw [List.append_assoc, ← hrest]
      exact (cut_text_append_rest c cs).symm
    · rw [Mark.after_append]
      exact ⟨hspan, hposition⟩
  | case4 c cs mark pending lexeme fault hfound =>
    cases hscan
    exact ⟨[], c, cs, rfl, hfound, rfl, rfl⟩

namespace Token

/-- A lexical error lies in the text, and is shown where it begins. -/
theorem located_of_ofSource_eq_error {source : String} {error : LexError}
    (herror : ofSource source = .error error) :
    error.span.InText source.length ∧ error.position = .ofOffset source error.span.start := by
  obtain ⟨before, c, cs, hsplit, _, hspan, hposition⟩ := Lexer.scan_eq_error herror
  simp only [Lexer.ofSource, Cuts.offset_start_after] at hsplit hspan hposition
  rw [hspan, hposition, ← String.length_toList, hsplit]
  refine ⟨Lexeme.inText_cut before c cs, ?_⟩
  rw [Position.ofOffset, hsplit, List.take_left]
  rfl

/-- The words of a text lie in it, and the end mark is no word. -/
theorem exists_words_of_ofSource_eq_ok {source : String} {tokens : List Token}
    (htokens : ofSource source = .ok tokens) :
    ∃ words stop, tokens = words ++ [stop] ∧ stop.kind = .endOfInput ∧
      (∀ word ∈ words, word.kind ≠ .endOfInput) ∧
      ∀ word ∈ words, word.span.InText source.length := by
  obtain ⟨words, hcuts, rfl⟩ := ofSource_eq_ok htokens
  refine ⟨words, _, rfl, rfl, fun word => hcuts.kind_ne_endOfInput, ?_⟩
  intro word hword
  obtain ⟨hstart, hstop⟩ := hcuts.tiling.inside word hword
  exact ⟨hstart, String.length_toList ▸ hstop⟩

end Token
end KawaiiLang
