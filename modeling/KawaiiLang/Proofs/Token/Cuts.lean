import KawaiiLang.Token.Lexer

namespace KawaiiLang

namespace Lexeme

/-- The characters that separate tokens, or begin a comment. -/
def separators : List Char :=
  [' ', '\t', '\r', '\n', '#']

/-- A lexeme that is a token, unless it is at fault. Only in a string, between its quotes,
    can there be characters that would separate tokens elsewhere. -/
def Proper (lexeme : Lexeme) : Prop :=
  match lexeme.found with
  | .blank => False
  | .token kind _ =>
    kind ≠ .endOfInput ∧ (kind ≠ .string → ∀ x ∈ lexeme.text, x ∉ separators)
  | .fault _ => True

theorem not_mem_separators {p : Char → Bool} (hp : separators.any p = false) {x : Char}
    (hx : p x = true) : x ∉ separators :=
  fun hmem => List.any_eq_false.mp hp x hmem hx

theorem proper_string (cs : List Char) : (string cs).Proper := by
  unfold string
  dsimp only
  split
  · exact ⟨by decide, fun hkind => absurd rfl hkind⟩
  · trivial

/-- A number goes on behind a point if a digit comes next, and ends with its first run of digits
    if not. -/
theorem number_cases (c : Char) (cs : List Char) :
    (∃ d rest, cs.dropWhile Char.isDigit = '.' :: d :: rest ∧ d.isDigit = true ∧
      number c cs = ⟨float (c :: cs.takeWhile Char.isDigit) (d :: rest.takeWhile Char.isDigit),
        c :: cs.takeWhile Char.isDigit ++ '.' :: d :: rest.takeWhile Char.isDigit,
        rest.dropWhile Char.isDigit⟩) ∨
    ((∀ d rest, cs.dropWhile Char.isDigit = '.' :: d :: rest → d.isDigit = false) ∧
      number c cs = ⟨integer (c :: cs.takeWhile Char.isDigit), c :: cs.takeWhile Char.isDigit,
        cs.dropWhile Char.isDigit⟩) := by
  unfold number
  split
  · next d rest hpoint =>
    split
    · next hd => exact .inl ⟨d, rest, hpoint, hd, rfl⟩
    · next hd =>
      refine .inr ⟨?_, by rw [hpoint]⟩
      intro e others hother
      rw [hpoint] at hother
      cases hother
      exact Bool.eq_false_iff.mpr hd
  · next hpoint => exact .inr ⟨fun d rest h => absurd h (hpoint d rest), rfl⟩

/-- A number consists of digits, and of a point if it is no integer. -/
theorem plain_number {c : Char} (hc : c.isDigit = true) (cs : List Char) :
    ∀ x ∈ (number c cs).text, x ∉ separators := by
  have hdigits {c : Char} (hc : c.isDigit = true) (cs : List Char) :
      ∀ x ∈ c :: cs.takeWhile Char.isDigit, x ∉ separators := by
    refine List.forall_mem_cons.mpr ⟨not_mem_separators (by decide) hc, ?_⟩
    intro x hx
    exact not_mem_separators (by decide) (List.all_eq_true.mp List.all_takeWhile x hx)
  obtain ⟨d, rest, _, hd, hnumber⟩ | ⟨_, hnumber⟩ := number_cases c cs
  · have hpoint : '.' ∉ separators := by decide
    rw [hnumber]
    exact List.forall_mem_append.mpr
      ⟨hdigits hc cs, List.forall_mem_cons.mpr ⟨hpoint, hdigits hd rest⟩⟩
  · rw [hnumber]
    exact hdigits hc cs

theorem proper_number {c : Char} (hc : c.isDigit = true) (cs : List Char) :
    (number c cs).Proper := by
  have hplain := plain_number hc cs
  obtain ⟨d, rest, _, _, hnumber⟩ | ⟨_, hnumber⟩ := number_cases c cs
  · rw [hnumber] at hplain ⊢
    exact ⟨nofun, fun _ => hplain⟩
  · rw [hnumber] at hplain ⊢
    unfold integer
    dsimp only
    split
    · exact ⟨nofun, fun _ => hplain⟩
    · trivial

theorem plain_word {c : Char} (hc : startsWord c = true) (cs : List Char) :
    ∀ x ∈ (stretch word continuesWord c cs).text, x ∉ separators := by
  refine List.forall_mem_cons.mpr ⟨not_mem_separators (by decide) hc, ?_⟩
  intro x hx
  exact not_mem_separators (by decide) (List.all_eq_true.mp List.all_takeWhile x hx)

theorem proper_word {c : Char} (hc : startsWord c = true) (cs : List Char) :
    (stretch word continuesWord c cs).Proper := by
  have hplain := plain_word hc cs
  unfold stretch word at *
  dsimp only at *
  split <;> exact ⟨nofun, fun _ => hplain⟩

/-- No symbol has a separator in it. -/
theorem plain_of_ofText? {text : List Char} {sign : Symbol}
    (hsign : Symbol.ofText? text = some sign) : ∀ x ∈ text, x ∉ separators := by
  have hspelling : sign.spelling.toList = text := by simpa using List.find?_some hsign
  have hplain : separators.any sign.spelling.toList.contains = false := by cases sign <;> decide
  rw [hspelling] at hplain
  exact fun x hx => not_mem_separators hplain (List.contains_iff_mem.mpr hx)

theorem plain_symbol {c : Char} (hc : c ∉ separators) (cs : List Char) :
    ∀ x ∈ (symbol c cs).text, x ∉ separators := by
  unfold symbol
  cases cs with
  | nil =>
    dsimp only
    split <;> exact List.forall_mem_singleton.mpr hc
  | cons d rest =>
    dsimp only
    split
    · next hsign => exact plain_of_ofText? hsign
    · split <;> exact List.forall_mem_singleton.mpr hc

theorem proper_of_ofText? {text : List Char} {sign : Symbol}
    (hsign : Symbol.ofText? text = some sign) (rest : List Char) :
    Proper ⟨.token (.symbol sign) none, text, rest⟩ :=
  ⟨nofun, fun _ => plain_of_ofText? hsign⟩

theorem proper_symbol (c : Char) (cs : List Char) : (symbol c cs).Proper := by
  unfold symbol
  cases cs with
  | nil =>
    dsimp only
    split
    · next hsign => exact proper_of_ofText? hsign _
    · trivial
  | cons d rest =>
    dsimp only
    split
    · next hsign => exact proper_of_ofText? hsign _
    · split
      · next hsign => exact proper_of_ofText? hsign _
      · trivial

/-- What begins with no separator is a string, a number, a word or a symbol. -/
theorem cut_of_not_mem_separators {c : Char} (hc : c ∉ separators) (cs : List Char) :
    cut c cs =
      if c = '"' then string cs
      else if c.isDigit then number c cs
      else if startsWord c then stretch word continuesWord c cs
      else symbol c cs := by
  have hblank : isBlank c = false := by
    simp only [separators, List.mem_cons, not_or] at hc
    simp [isBlank, hc]
  have hcomment : c ≠ '#' := by
    rintro rfl
    exact hc (by decide)
  rw [cut, if_neg (by simp [hblank]), if_neg hcomment]

/-- What can be cut off a text: one character of white space, a comment up to the end of
    its line, or a proper lexeme. -/
theorem cut_cases (c : Char) (cs : List Char) :
    (isBlank c = true ∧ cut c cs = ⟨.blank, [c], cs⟩) ∨
      (c = '#' ∧ cut c cs = stretch (fun _ => .blank) (· ≠ '\n') c cs) ∨ (cut c cs).Proper := by
  unfold cut
  split
  · next hblank => exact .inl ⟨hblank, rfl⟩
  · refine .inr ?_
    split
    · next hcomment => exact .inl ⟨hcomment, rfl⟩
    · refine .inr ?_
      split
      · exact proper_string cs
      · split
        · next hdigit => exact proper_number hdigit cs
        · split
          · next hword => exact proper_word hword cs
          · exact proper_symbol c cs

/-- What is passed over is one character of white space, or a comment up to the end of its
    line. -/
theorem cut_of_blank {c : Char} {cs : List Char} (hfound : (cut c cs).found = .blank) :
    (isBlank c = true ∧ (cut c cs).text = [c]) ∨
      (c = '#' ∧ '\n' ∉ (cut c cs).text ∧ ∀ next ∈ (cut c cs).rest.head?, next = '\n') := by
  obtain ⟨hblank, hcut⟩ | ⟨rfl, hcut⟩ | hproper := cut_cases c cs
  · rw [hcut]
    exact .inl ⟨hblank, rfl⟩
  · rw [hcut]
    refine .inr ⟨rfl, ?_, ?_⟩
    · intro hmem
      obtain hsign | hmem := List.mem_cons.mp hmem
      · cases hsign
      · simpa using List.all_eq_true.mp List.all_takeWhile '\n' hmem
    · intro next hnext
      have hstop := List.head?_dropWhile_not (fun x => decide (x ≠ '\n')) cs
      rw [show (cs.dropWhile fun x => decide (x ≠ '\n')).head? = some next from hnext] at hstop
      simpa using hstop
  · rw [Proper, hfound] at hproper
    exact hproper.elim

theorem cut_of_token {c : Char} {cs : List Char} {kind : Token.Kind} {literal : Option Literal}
    (hfound : (cut c cs).found = .token kind literal) :
    kind ≠ .endOfInput ∧ (kind ≠ .string → ∀ x ∈ (cut c cs).text, x ∉ separators) := by
  obtain ⟨_, hcut⟩ | ⟨_, hcut⟩ | hproper := cut_cases c cs
  · rw [hcut] at hfound
    cases hfound
  · rw [hcut] at hfound
    cases hfound
  · rwa [Proper, hfound] at hproper

/-- The token that a lexeme makes which begins at `mark`. -/
def tokenAt (lexeme : Lexeme) (mark : Mark) (kind : Token.Kind) (literal : Option Literal) :
    Token :=
  { kind, lexeme := String.ofList lexeme.text, literal,
    span := ⟨mark.offset, mark.offset + lexeme.text.length⟩, position := mark.position }

/-- The text, which begins at `mark`, is cut into lexemes from its front to its end, and
    `words` are the tokens among them. -/
inductive Cuts : Mark → List Char → List Token → Prop where
  | nil (mark : Mark) : Cuts mark [] []
  | blank {mark : Mark} {c : Char} {cs : List Char} {words : List Token}
      (hfound : (cut c cs).found = .blank)
      (hrest : Cuts (mark.after (cut c cs).text) (cut c cs).rest words) : Cuts mark (c :: cs) words
  | token {mark : Mark} {c : Char} {cs : List Char} {kind : Token.Kind} {literal : Option Literal}
      {words : List Token} (hfound : (cut c cs).found = .token kind literal)
      (hrest : Cuts (mark.after (cut c cs).text) (cut c cs).rest words) :
      Cuts mark (c :: cs) ((cut c cs).tokenAt mark kind literal :: words)

theorem Cuts.of_cut {c : Char} {cs text rest : List Char} {kind : Token.Kind}
    {literal : Option Literal} (hcut : cut c cs = ⟨.token kind literal, text, rest⟩) {mark : Mark}
    {words : List Token} (hrest : Cuts (mark.after text) rest words) :
    Cuts mark (c :: cs)
      (tokenAt ⟨.token kind literal, text, rest⟩ mark kind literal :: words) := by
  rw [← hcut]
  exact .token (by rw [hcut]) (by rw [hcut]; exact hrest)

end Lexeme

open Lexeme (Cuts cut)

/-- A scan that finds no fault hands out what was waiting, the tokens that the rest of the
    text is cut into, and the end mark. -/
theorem Lexer.scan_eq_ok {lexer : Lexer} {tokens : List Token} (hscan : lexer.scan.1 = .ok tokens) :
    ∃ words, Cuts lexer.mark lexer.rest words ∧
      tokens = lexer.pending.toList ++ words ++ [.endAt (lexer.mark.after lexer.rest)] := by
  fun_induction scan lexer with
  | case1 mark pending =>
    cases hscan
    exact ⟨[], .nil mark, by simp⟩
  | case2 c cs mark pending lexeme hfound ih =>
    obtain ⟨words, hwords, rfl⟩ := ih hscan
    refine ⟨words, .blank hfound hwords, ?_⟩
    rw [← Lexeme.cut_text_append_rest c cs, Mark.after_append]
    rfl
  | case3 c cs mark pending lexeme kind literal hfound ih =>
    obtain ⟨words, hwords, rfl⟩ := ih hscan
    refine ⟨_ :: words, .token hfound hwords, ?_⟩
    rw [← Lexeme.cut_text_append_rest c cs, Mark.after_append]
    simp only [push, skip, Array.toList_push, List.append_assoc]
    rfl
  | case4 => cases hscan

/-- A text that is cut into tokens is scanned without a fault. -/
theorem Lexer.scan_of_cuts {lexer : Lexer} {words : List Token}
    (hcuts : Cuts lexer.mark lexer.rest words) :
    lexer.scan.1 =
      .ok (lexer.pending.toList ++ words ++ [.endAt (lexer.mark.after lexer.rest)]) := by
  obtain ⟨rest, mark, pending⟩ := lexer
  dsimp only at hcuts ⊢
  induction hcuts generalizing pending with
  | nil => simp
  | @blank mark c cs words hfound _ ih =>
    rw [scan_of_blank rfl hfound, ← Lexeme.cut_text_append_rest c cs, Mark.after_append]
    exact ih pending
  | @token mark c cs kind literal words hfound _ ih =>
    rw [scan_of_token rfl hfound, ← Lexeme.cut_text_append_rest c cs, Mark.after_append]
    refine (ih _).trans ?_
    simp only [skip, Array.toList_push, List.append_assoc]
    rfl

theorem Token.ofSource_eq_ok {source : String} {tokens : List Token}
    (htokens : ofSource source = .ok tokens) :
    ∃ words, Cuts .start source.toList words ∧
      tokens = words ++ [.endAt (Mark.start.after source.toList)] :=
  Lexer.scan_eq_ok htokens

theorem Token.ofSource_of_cuts {source : String} {words : List Token}
    (hcuts : Cuts .start source.toList words) :
    ofSource source = .ok (words ++ [.endAt (Mark.start.after source.toList)]) :=
  @Lexer.scan_of_cuts (.ofSource source) words hcuts

end KawaiiLang
