import KawaiiLang.Proofs.Token.Cuts

namespace KawaiiLang

open Lexeme (cut cut_text_append_rest)

/-- A way to see a text in another place: where its marks come to lie, and with them the tokens
    and errors that are found there. -/
structure Shift where
  mark : Mark → Mark
  token : Token → Token
  error : LexError → LexError
  token_tokenAt : ∀ (lexeme : Lexeme) (m : Mark) (kind : Token.Kind) (literal : Option Literal),
    token (lexeme.tokenAt m kind literal) = lexeme.tokenAt (mark m) kind literal
  token_endAt : ∀ m : Mark, token (.endAt m) = .endAt (mark m)
  error_at : ∀ (fault : LexFault) (m : Mark) (length : Nat),
    error ⟨fault, ⟨m.offset, m.offset + length⟩, m.position⟩ =
      ⟨fault, ⟨(mark m).offset, (mark m).offset + length⟩, (mark m).position⟩

/-- Reading on from `m`, up to the end of `text` at most, leads to the same marks in either
    place. -/
def Shift.Follows (shift : Shift) (m : Mark) (text : List Char) : Prop :=
  ∀ read, read <+: text → shift.mark (m.after read) = (shift.mark m).after read

theorem Shift.Follows.behind {shift : Shift} {m : Mark} {read rest : List Char}
    (hfollows : shift.Follows m (read ++ rest)) : shift.Follows (m.after read) rest := by
  intro others hothers
  have hboth : read ++ others <+: read ++ rest := (List.prefix_append_right_inj read).mpr hothers
  rw [← Mark.after_append, hfollows (read ++ others) hboth,
    hfollows read (List.prefix_append read rest), Mark.after_append]

namespace Lexer

/-- The lexer in another place, and with other tokens waiting in front of its own. -/
def shifted (lexer : Lexer) (shift : Shift) (earlier : List Token) : Lexer :=
  { rest := lexer.rest
    mark := shift.mark lexer.mark
    pending := (earlier ++ lexer.pending.toList.map shift.token).toArray }

section

variable {lexer : Lexer} {shift : Shift} {c : Char} {cs : List Char}

theorem skip_shifted (hrest : lexer.rest = c :: cs) (hfollows : shift.Follows lexer.mark lexer.rest)
    (earlier : List Token) :
    (lexer.shifted shift earlier).skip (cut c cs) =
      (lexer.skip (cut c cs)).shifted shift earlier := by
  have hprefix : (cut c cs).text <+: lexer.rest := ⟨_, (cut_text_append_rest c cs).trans hrest.symm⟩
  simp only [skip, shifted, hfollows _ hprefix]

theorem follows_skip (hrest : lexer.rest = c :: cs)
    (hfollows : shift.Follows lexer.mark lexer.rest) :
    shift.Follows (lexer.skip (cut c cs)).mark (lexer.skip (cut c cs)).rest := by
  rw [hrest, ← cut_text_append_rest c cs] at hfollows
  exact hfollows.behind

theorem tokenOf_shifted (earlier : List Token) (lexeme : Lexeme) (kind : Token.Kind)
    (literal : Option Literal) :
    (lexer.shifted shift earlier).tokenOf lexeme kind literal =
      shift.token (lexer.tokenOf lexeme kind literal) :=
  (shift.token_tokenAt lexeme lexer.mark kind literal).symm

theorem push_shifted (earlier : List Token) (token : Token) :
    (lexer.shifted shift earlier).push (shift.token token) =
      (lexer.push token).shifted shift earlier := by
  simp [push, shifted]

end

/-- Where a text is read makes no difference to a scan but for the places of what it finds. -/
theorem scan_shifted (lexer : Lexer) {shift : Shift}
    (hfollows : shift.Follows lexer.mark lexer.rest) (earlier : List Token) :
    (lexer.shifted shift earlier).scan =
      match lexer.scan with
      | (.error error, next) => (.error (shift.error error), next.shifted shift earlier)
      | (.ok tokens, next) => (.ok (earlier ++ tokens.map shift.token), next.shifted shift []) := by
  fun_induction scan lexer with
  | case1 mark pending => simp [shifted, shift.token_endAt]
  | case2 c cs mark pending lexeme hfound ih =>
    rw [scan_of_blank rfl hfound, skip_shifted rfl hfollows]
    exact ih (follows_skip rfl hfollows)
  | case3 c cs mark pending lexeme kind literal hfound ih =>
    rw [scan_of_token rfl hfound, skip_shifted rfl hfollows, tokenOf_shifted, push_shifted]
    exact ih (follows_skip rfl hfollows)
  | case4 c cs mark pending lexeme fault hfound =>
    have herror := shift.error_at fault mark lexeme.text.length
    rw [scan_of_fault rfl hfound, skip_shifted rfl hfollows, spanOf, shifted, ← herror]
    rfl

end Lexer
end KawaiiLang
