import KawaiiLang.Proofs.Token.LongestMatch

namespace KawaiiLang

open Lexeme (cut separators)

namespace Lexis

/-- What tokenizing comes to: the tokens with their spellings, or the place at which it fails. -/
abbrev Reading :=
  Except Nat (List (Token.Kind × String))

/-- Leftmost-longest tokenizing of a text that begins at `offset`: white space and comments
    are passed over, and wherever neither comes next, the longest match is the next token. It
    fails where nothing matches, or where the longest match is an integer that is too large. -/
inductive Reads : Nat → List Char → Reading → Prop where
  | nil (offset : Nat) : Reads offset [] (.ok [(.endOfInput, "")])
  | blank {offset : Nat} {c : Char} {rest : List Char} {reading : Reading}
      (hblank : c = ' ' ∨ c = '\t' ∨ c = '\r' ∨ c = '\n') (hrest : Reads (offset + 1) rest reading) :
      Reads offset (c :: rest) reading
  | comment {offset : Nat} {comment rest : List Char} {reading : Reading}
      (hcomment : '\n' ∉ comment) (hend : rest = [] ∨ rest.head? = some '\n')
      (hrest : Reads (offset + (comment.length + 1)) rest reading) :
      Reads offset ('#' :: (comment ++ rest)) reading
  | token {offset : Nat} {lexeme rest : List Char} {kind : Token.Kind} {reading : Reading}
      (hlongest : Longest (lexeme ++ rest) lexeme kind)
      (hsize : kind = .integer → decimal lexeme ≤ 2 ^ 63 - 1)
      (hrest : Reads (offset + lexeme.length) rest reading) :
      Reads offset (lexeme ++ rest) (reading.map ((kind, String.ofList lexeme) :: ·))
  | tooLarge {offset : Nat} {text lexeme : List Char} (hlongest : Longest text lexeme .integer)
      (hsize : 2 ^ 63 - 1 < decimal lexeme) : Reads offset text (.error offset)
  | stuck {offset : Nat} {c : Char} {rest : List Char} (hseparator : c ∉ separators)
      (hnone : ∀ lexeme kind, Spells lexeme kind → ¬ lexeme <+: c :: rest) :
      Reads offset (c :: rest) (.error offset)

/-- What the tokens of a text, or the error in it, say apart from places. -/
def Reading.of : Except LexError (List Token) → Reading
  | .ok tokens => .ok (tokens.map fun token => (token.kind, token.lexeme))
  | .error error => .error error.span.start

theorem not_mem_separators {c : Char} {cs lexeme : List Char} {kind : Token.Kind}
    (hspells : Spells lexeme kind) (hfront : lexeme <+: c :: cs) : c ∉ separators := by
  obtain ⟨rest, rfl, _⟩ := hspells.of_front hfront
  exact leads_separator hspells.leads

theorem cut_blank {c : Char} (hblank : c = ' ' ∨ c = '\t' ∨ c = '\r' ∨ c = '\n') (cs : List Char) :
    cut c cs = ⟨.blank, [c], cs⟩ := by
  have hisBlank : Lexeme.isBlank c = true := by simpa [Lexeme.isBlank, or_assoc] using hblank
  rw [cut, if_pos hisBlank]

/-- A comment ends in front of the first line feed. -/
theorem cut_comment {comment rest : List Char} (hcomment : '\n' ∉ comment)
    (hend : rest = [] ∨ rest.head? = some '\n') :
    cut '#' (comment ++ rest) = ⟨.blank, '#' :: comment, rest⟩ := by
  have hline : ∀ x ∈ comment, decide (x ≠ '\n') = true := by
    intro x hx
    exact decide_eq_true fun h => hcomment (h ▸ hx)
  have hstop : rest.takeWhile (· ≠ '\n') = [] ∧ rest.dropWhile (· ≠ '\n') = rest := by
    cases rest with
    | nil => exact ⟨rfl, rfl⟩
    | cons next rest =>
      obtain rfl : next = '\n' := by simpa using hend
      exact ⟨rfl, rfl⟩
  have hcut : cut '#' (comment ++ rest) =
      Lexeme.stretch (fun _ => .blank) (· ≠ '\n') '#' (comment ++ rest) := rfl
  rw [hcut, Lexeme.stretch, List.takeWhile_append_of_pos hline, List.dropWhile_append_of_pos hline,
    hstop.1, hstop.2, List.append_nil]

/-- Every text goes on up to a line feed, or to its end. -/
theorem exists_line (text : List Char) :
    ∃ line rest, text = line ++ rest ∧ '\n' ∉ line ∧ (rest = [] ∨ rest.head? = some '\n') := by
  refine ⟨text.takeWhile (· ≠ '\n'), text.dropWhile (· ≠ '\n'),
    List.takeWhile_append_dropWhile.symm, ?_, ?_⟩
  · intro hfeed
    simpa using List.all_eq_true.mp List.all_takeWhile '\n' hfeed
  · have hstop := List.head?_dropWhile_not (fun x => decide (x ≠ '\n')) text
    cases hrest : text.dropWhile (· ≠ '\n') with
    | nil => exact .inl rfl
    | cons next rest =>
      rw [hrest] at hstop
      exact .inr (by simpa using hstop)

/-- Every text can be tokenized in this way, or fails to be somewhere: by induction on its
    length, as each rule that goes on leaves less of it. -/
theorem exists_reads (offset : Nat) (text : List Char) : ∃ reading, Reads offset text reading := by
  match text with
  | [] => exact ⟨_, .nil offset⟩
  | c :: cs =>
    have hall := Lexeme.cut_text_append_rest c cs
    by_cases hc : c ∈ separators
    · obtain hblank | rfl : (c = ' ' ∨ c = '\t' ∨ c = '\r' ∨ c = '\n') ∨ c = '#' := by
        simpa [separators, or_assoc] using hc
      · obtain ⟨reading, hrest⟩ := exists_reads (offset + 1) cs
        exact ⟨reading, .blank hblank hrest⟩
      · obtain ⟨comment, rest, hcs, hcomment, hend⟩ := exists_line cs
        have hlength : rest.length ≤ cs.length := by simp [hcs]
        obtain ⟨reading, hrest⟩ := exists_reads (offset + (comment.length + 1)) rest
        rw [hcs]
        exact ⟨reading, .comment hcomment hend hrest⟩
    · cases fits_cut hc cs with
      | token hfound hlongest hsize =>
        obtain ⟨reading, hrest⟩ := exists_reads (offset + (cut c cs).text.length) (cut c cs).rest
        rw [← hall] at hlongest ⊢
        exact ⟨_, .token hlongest hsize hrest⟩
      | tooLarge _ hlongest hsize => exact ⟨_, .tooLarge hlongest hsize⟩
      | stuck _ hnone => exact ⟨_, .stuck hc hnone⟩
termination_by text.length
decreasing_by
  · simp
  · exact Nat.lt_succ_of_le hlength
  · exact Lexeme.cut_rest_length_lt c cs

/-- What a scan makes of the text in front of it, behind the tokens that were waiting. -/
def Follows (reading : Reading) (lexer : Lexer) : Prop :=
  Reading.of lexer.scan.1 =
    reading.map (lexer.pending.toList.map (fun token => (token.kind, token.lexeme)) ++ ·)

section Follows

variable {lexer : Lexer} {c : Char} {cs : List Char} {reading : Reading}

theorem follows_of_blank (hrest : lexer.rest = c :: cs) (hfound : (cut c cs).found = .blank)
    (hfollows : Follows reading (lexer.skip (cut c cs))) : Follows reading lexer := by
  rw [Follows, Lexer.scan_of_blank hrest hfound]
  exact hfollows

theorem follows_of_token {kind : Token.Kind} {literal : Option Literal}
    (hrest : lexer.rest = c :: cs) (hfound : (cut c cs).found = .token kind literal)
    (hfollows : Follows reading ((lexer.skip (cut c cs)).push
      (lexer.tokenOf (cut c cs) kind literal))) :
    Follows (reading.map ((kind, String.ofList (cut c cs).text) :: ·)) lexer := by
  rw [Follows, Lexer.scan_of_token hrest hfound, hfollows]
  cases reading with
  | ok words =>
    simp [Except.map, Lexer.push, Lexer.skip, Lexer.tokenOf]
  | error offset => rfl

theorem follows_of_fault {fault : LexFault} (hrest : lexer.rest = c :: cs)
    (hfound : (cut c cs).found = .fault fault) : Follows (.error lexer.mark.offset) lexer := by
  rw [Follows, Lexer.scan_of_fault hrest hfound]
  rfl

end Follows

/-- A scan takes the longest match wherever one is to be taken. -/
theorem Reads.follows {offset : Nat} {text : List Char} {reading : Reading}
    (hreads : Reads offset text reading) {lexer : Lexer} (htext : lexer.rest = text)
    (hoffset : lexer.mark.offset = offset) : Follows reading lexer := by
  induction hreads generalizing lexer with
  | nil =>
    obtain ⟨rest, mark, pending⟩ := lexer
    subst htext
    simp [Follows, Reading.of, Except.map, Token.endAt]
  | @blank offset c rest reading hblank _ ih =>
    have hcut := cut_blank hblank rest
    refine follows_of_blank htext (by rw [hcut]) (ih ?_ ?_)
    · rw [hcut]
      rfl
    · rw [hcut, ← hoffset]
      rfl
  | @comment offset comment rest reading hcomment hend _ ih =>
    have hcut := cut_comment hcomment hend
    refine follows_of_blank htext (by rw [hcut]) (ih ?_ ?_)
    · rw [hcut]
      rfl
    · rw [hcut, ← hoffset]
      rfl
  | @token offset lexeme rest kind reading hlongest hsize _ ih =>
    obtain ⟨c, cs, hcons⟩ : ∃ c cs, lexeme ++ rest = c :: cs := by
      obtain ⟨c, cs, rfl⟩ := hlongest.spells.exists_cons
      exact ⟨c, cs ++ rest, rfl⟩
    rw [hcons] at hlongest htext
    have hc := not_mem_separators hlongest.spells hlongest.front
    cases fits_cut hc cs with
    | token hfound hcut =>
      obtain ⟨rfl, rfl⟩ := hlongest.unique hcut
      have hall := Lexeme.cut_text_append_rest c cs
      rw [← hcons] at hall
      refine follows_of_token htext hfound (ih (List.append_cancel_left hall) ?_)
      rw [← hoffset]
      rfl
    | tooLarge _ hcut hlarge =>
      obtain ⟨rfl, rfl⟩ := hlongest.unique hcut
      exact absurd (hsize rfl) (Nat.not_le.mpr hlarge)
    | stuck _ hnone => exact absurd hlongest.front (hnone _ _ hlongest.spells)
  | @tooLarge offset text lexeme hlongest hlarge =>
    obtain ⟨c, cs, rfl⟩ : ∃ c cs, text = c :: cs := by
      obtain ⟨c, cs, rfl⟩ := hlongest.spells.exists_cons
      obtain ⟨rest, rfl⟩ := hlongest.front
      exact ⟨c, cs ++ rest, rfl⟩
    have hc := not_mem_separators hlongest.spells hlongest.front
    subst hoffset
    cases fits_cut hc cs with
    | token _ hcut hsize =>
      obtain ⟨rfl, rfl⟩ := hlongest.unique hcut
      exact absurd (hsize rfl) (Nat.not_le.mpr hlarge)
    | tooLarge hfound => exact follows_of_fault htext hfound
    | stuck hfound => exact follows_of_fault htext hfound
  | @stuck offset c rest hc hnone =>
    subst hoffset
    cases fits_cut hc rest with
    | token _ hcut => exact absurd hcut.front (hnone _ _ hcut.spells)
    | tooLarge hfound => exact follows_of_fault htext hfound
    | stuck hfound => exact follows_of_fault htext hfound

end Lexis

/-- The tokens of a text are those that leftmost-longest tokenizing gives, in kind and in
    spelling, and it has an error exactly if that fails, at the very same place. -/
theorem Token.ofSource_leftmostLongest (source : String) (reading : Lexis.Reading) :
    Lexis.Reads 0 source.toList reading ↔ reading = Lexis.Reading.of (ofSource source) := by
  have hscan {reading : Lexis.Reading} (hreads : Lexis.Reads 0 source.toList reading) :
      reading = Lexis.Reading.of (ofSource source) := by
    have hfollows : Lexis.Follows reading (Lexer.ofSource source) := hreads.follows rfl rfl
    rw [ofSource, hfollows]
    cases reading <;> rfl
  constructor
  · exact hscan
  · rintro rfl
    obtain ⟨reading, hreads⟩ := Lexis.exists_reads 0 source.toList
    exact hscan hreads ▸ hreads

end KawaiiLang
