import KawaiiLang.Proofs.Token.Locality
import KawaiiLang.Proofs.Token.Location
import KawaiiLang.Proofs.Token.Shift

namespace KawaiiLang

namespace Lexeme

/-- Behind the first lexeme the rest of a text is read, and whatever comes behind the text. -/
theorem after_cut_append (mark : Mark) (c : Char) (cs more : List Char) :
    mark.after (c :: cs ++ more) = (mark.after (cut c cs).text).after ((cut c cs).rest ++ more) := by
  rw [← Mark.after_append, ← List.append_assoc, cut_text_append_rest]

end Lexeme

/-- The place as many lines further down. -/
def Position.below (position : Position) (lines : Nat) : Position :=
  { position with line := position.line + lines }

/-- The span as many characters further on. -/
def Span.below (span : Span) (offset : Nat) : Span :=
  ⟨span.start + offset, span.stop + offset⟩

/-- The mark as many characters further on, and as many lines further down. -/
def Mark.below (mark : Mark) (offset lines : Nat) : Mark :=
  ⟨mark.offset + offset, mark.position.below lines⟩

/-- The token as many characters further on, and as many lines further down. -/
def Token.below (token : Token) (offset lines : Nat) : Token :=
  { token with span := token.span.below offset, position := token.position.below lines }

/-- The error as many characters further on, and as many lines further down. -/
def LexError.below (error : LexError) (offset lines : Nat) : LexError :=
  { error with span := error.span.below offset, position := error.position.below lines }

namespace Position

theorem next_below (position : Position) (lines : Nat) (c : Char) :
    (position.below lines).next c = (position.next c).below lines := by
  unfold next
  split
  · exact congrArg (Position.mk · 1) (Nat.add_right_comm position.line lines 1)
  · rfl

theorem after_below (position : Position) (lines : Nat) (text : List Char) :
    (position.below lines).after text = (position.after text).below lines := by
  induction text generalizing position with
  | nil => rfl
  | cons c text ih => rw [after_cons, after_cons, next_below, ih]

theorem line_after (position : Position) (text : List Char) :
    (position.after text).line = position.line + text.count '\n' := by
  induction text generalizing position with
  | nil => rfl
  | cons c text ih =>
    rw [after_cons, ih, next, List.count_cons]
    split
    · next hfeed => simp [hfeed, Nat.add_assoc, Nat.add_comm 1]
    · next hfeed => simp [hfeed]

end Position

namespace Mark

theorem after_below (mark : Mark) (offset lines : Nat) (text : List Char) :
    (mark.below offset lines).after text = (mark.after text).below offset lines := by
  rw [after, below, Position.after_below, Nat.add_right_comm]
  rfl

/-- Behind a text and a line feed, a line begins as the first one does. -/
theorem start_after_lineFeed (text : List Char) :
    start.after (text ++ ['\n']) = start.below (text.length + 1) (text.count '\n' + 1) := by
  have hposition : Position.start.after (text ++ ['\n']) =
      Position.start.below (text.count '\n' + 1) := by
    rw [Position.after_append, Position.after_cons, Position.after_nil, Position.next, if_pos rfl,
      Position.line_after]
    rfl
  rw [after, List.length_append]
  exact congrArg (Mark.mk _) hposition

end Mark

namespace Shift

/-- A text with so many characters and lines in front of it. -/
def down (offset lines : Nat) : Shift where
  mark := (·.below offset lines)
  token := (·.below offset lines)
  error := (·.below offset lines)
  token_tokenAt lexeme m kind literal := by
    simp [Lexeme.tokenAt, Token.below, Span.below, Mark.below, Nat.add_right_comm]
  token_endAt m := by
    simp [Token.endAt, Token.below, Span.below, Span.single, Mark.below, Nat.add_right_comm]
  error_at fault m length := by
    simp [LexError.below, Span.below, Mark.below, Nat.add_right_comm]

theorem follows_down (offset lines : Nat) (m : Mark) (text : List Char) :
    (down offset lines).Follows m text :=
  fun read _ => (m.after_below offset lines read).symm

end Shift

namespace Lexer

/-- The lexer with a line feed and more text behind what is left. -/
def followedBy (lexer : Lexer) (more : List Char) : Lexer :=
  { lexer with rest := lexer.rest ++ '\n' :: more }

/-- A scan of a text that is followed by a line feed comes to the same error, if to any. Else it
    goes on behind the line feed, with the tokens of the text waiting. -/
theorem scan_followedBy (lexer : Lexer) (more : List Char) :
    (lexer.followedBy more).scan =
      match lexer.scan with
      | (.error error, next) => (.error error, next.followedBy more)
      | (.ok tokens, _) =>
        scan ⟨more, lexer.mark.after (lexer.rest ++ ['\n']), tokens.dropLast.toArray⟩ := by
  fun_induction scan lexer with
  | case1 mark pending =>
    have hcut : Lexeme.cut '\n' more = ⟨.blank, ['\n'], more⟩ := rfl
    rw [followedBy, List.nil_append, scan_of_blank rfl (by rw [hcut]), hcut]
    simp [skip]
  | case2 c cs mark pending lexeme hfound ih =>
    have hcut : Lexeme.cut c (cs ++ '\n' :: more) = lexeme.followedBy ('\n' :: more) :=
      Lexeme.cut_append_lineFeed c cs more
    rw [followedBy, List.cons_append, scan_of_blank rfl (by rw [hcut]; exact hfound), hcut]
    refine ih.trans ?_
    rw [Lexeme.after_cut_append]
    rfl
  | case3 c cs mark pending lexeme kind literal hfound ih =>
    have hcut : Lexeme.cut c (cs ++ '\n' :: more) = lexeme.followedBy ('\n' :: more) :=
      Lexeme.cut_append_lineFeed c cs more
    rw [followedBy, List.cons_append, scan_of_token rfl (by rw [hcut]; exact hfound), hcut]
    refine ih.trans ?_
    rw [Lexeme.after_cut_append]
    rfl
  | case4 c cs mark pending lexeme fault hfound =>
    have hcut : Lexeme.cut c (cs ++ '\n' :: more) = lexeme.followedBy ('\n' :: more) :=
      Lexeme.cut_append_lineFeed c cs more
    rw [followedBy, List.cons_append, scan_of_fault rfl (by rw [hcut]; exact hfound), hcut]
    rfl

/-- The lexer in a text in which more characters and lines come before, and with other tokens
    waiting in front of its own. -/
def below (lexer : Lexer) (earlier : List Token) (offset lines : Nat) : Lexer :=
  { rest := lexer.rest
    mark := lexer.mark.below offset lines
    pending := (earlier ++ lexer.pending.toList.map (·.below offset lines)).toArray }

/-- Where a text begins makes no difference to a scan but for the places of what it finds. -/
theorem scan_below (lexer : Lexer) (earlier : List Token) (offset lines : Nat) :
    (lexer.below earlier offset lines).scan.1 =
      match lexer.scan.1 with
      | .error error => .error (error.below offset lines)
      | .ok tokens => .ok (earlier ++ tokens.map (·.below offset lines)) := by
  have hfollows := Shift.follows_down offset lines lexer.mark lexer.rest
  have hshifted := lexer.scan_shifted hfollows earlier
  refine (congrArg Prod.fst hshifted).trans ?_
  cases lexer.scan with
  | mk result next => cases result <;> rfl

end Lexer

/-- A text that is followed by a line feed and another text is tokenized as the two are one by one.
    An error in the first is the error of the whole; else the end mark of the first gives way to the
    tokens of the second, or the error in it, as many characters further on as the first text
    and the line feed have, and as many lines further down as there are line feeds in front. -/
theorem Token.ofSource_append_lineFeed (first second : String) :
    (∀ error, ofSource first = .error error →
        ofSource (first ++ "\n" ++ second) = .error error) ∧
      ∀ tokens, ofSource first = .ok tokens →
        ∃ words stop, tokens = words ++ [stop] ∧ stop.kind = .endOfInput ∧
          (∀ word ∈ words, word.kind ≠ .endOfInput) ∧
          (∀ others, ofSource second = .ok others →
            ofSource (first ++ "\n" ++ second) = .ok (words ++
              others.map (·.below (first.length + 1) (first.toList.count '\n' + 1)))) ∧
          ∀ error, ofSource second = .error error →
            ofSource (first ++ "\n" ++ second) =
              .error (error.below (first.length + 1) (first.toList.count '\n' + 1)) := by
  have hwhole : Lexer.ofSource (first ++ "\n" ++ second) =
      (Lexer.ofSource first).followedBy second.toList := by
    simp [Lexer.ofSource, Lexer.followedBy]
  have hscan := (Lexer.ofSource first).scan_followedBy second.toList
  rw [← hwhole] at hscan
  refine ⟨?_, ?_⟩
  · intro error herror
    rw [ofSource, hscan]
    cases hfirst : (Lexer.ofSource first).scan with
    | mk result next =>
      obtain rfl : result = .error error := (congrArg Prod.fst hfirst).symm.trans herror
      rfl
  · intro tokens htokens
    obtain ⟨words, stop, rfl, hstop, hwords, _⟩ := exists_words_of_ofSource_eq_ok htokens
    -- The second text is scanned from a mark below the first one, with the words of that waiting.
    have hbelow : ofSource (first ++ "\n" ++ second) =
        ((Lexer.ofSource second).below words (first.length + 1)
          (first.toList.count '\n' + 1)).scan.1 := by
      rw [ofSource, hscan]
      cases hfirst : (Lexer.ofSource first).scan with
      | mk result next =>
        obtain rfl : result = .ok (words ++ [stop]) :=
          (congrArg Prod.fst hfirst).symm.trans htokens
        simp [Lexer.below, Lexer.ofSource, Mark.start_after_lineFeed, String.length_toList]
    rw [Lexer.scan_below] at hbelow
    refine ⟨words, stop, rfl, hstop, hwords, ?_, ?_⟩
    · intro others hothers
      rw [hbelow, show (Lexer.ofSource second).scan.1 = .ok others from hothers]
    · intro error herror
      rw [hbelow, show (Lexer.ofSource second).scan.1 = .error error from herror]

end KawaiiLang
