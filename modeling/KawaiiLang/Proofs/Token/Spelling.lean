import KawaiiLang.Proofs.Layout.Syntax
import KawaiiLang.Proofs.Token.Locality
import KawaiiLang.Proofs.Token.Tiling

namespace KawaiiLang

open Lexeme (Cuts cut)

namespace Token

/-- The lexemes of the tokens, apart from the end mark, with single blanks between them. -/
def written (tokens : List Token) : String :=
  " ".intercalate ((tokens.filter (·.kind ≠ .endOfInput)).map (·.lexeme))

/-- Where nothing comes behind it, the lexeme of the token reads as that token. -/
def Alone (token : Token) : Prop :=
  ∃ c cs, token.lexeme.toList = c :: cs ∧
    cut c cs = ⟨.token token.kind token.literal, c :: cs, []⟩

/-- What is written depends on the words alone, and not on their places. -/
theorem written_of_words_eq {tokens others : List Token}
    (hwords : others.map word = tokens.map word) : written others = written tokens := by
  have hwritten (tokens : List Token) : written tokens = " ".intercalate
      (((tokens.map word).filter (·.1 ≠ .endOfInput)).map (·.2.1)) := by
    rw [List.filter_map, List.map_map]
    rfl
  rw [hwritten, hwritten, hwords]

end Token

theorem Lexeme.Cuts.alone {mark : Mark} {text : List Char} {words : List Token}
    (hcuts : Cuts mark text words) {word : Token} (hword : word ∈ words) : word.Alone := by
  obtain ⟨before, c, cs, kind, literal, -, hfound, rfl⟩ := hcuts.cutOff_of_mem hword
  obtain ⟨others, htext, hcut⟩ := Lexeme.exists_cut_of_rest (List.nil_append (cut c cs).rest).symm
  rw [List.append_nil] at htext
  refine ⟨c, others, ?_, ?_⟩
  · rw [Lexeme.tokenAt, String.toList_ofList, htext]
  · rw [hcut, hfound, htext]
    rfl

/-- Tokens that are written with blanks between them are cut off one by one: a lexeme does not go
    on over a blank behind it, and every one of them begins afresh. -/
theorem Token.exists_cuts_joined (mark : Mark) {words : List Token}
    (halone : ∀ word ∈ words, word.Alone) :
    ∃ others, Cuts mark (" ".intercalate (words.map (·.lexeme))).toList others ∧
      others.map word = words.map word := by
  induction words generalizing mark with
  | nil => exact ⟨[], .nil mark, rfl⟩
  | cons first words ih =>
    obtain ⟨⟨c, cs, hlexeme, hcut⟩, hwords⟩ := List.forall_mem_cons.mp halone
    have hword (rest : List Char) :
        (Lexeme.tokenAt ⟨.token first.kind first.literal, c :: cs, rest⟩ mark first.kind
          first.literal).word = first.word := by
      rw [Lexeme.tokenAt, ← hlexeme, String.ofList_toList]
      rfl
    cases words with
    | nil =>
      have htext : (" ".intercalate ([first].map (·.lexeme))).toList = c :: cs := by simp [hlexeme]
      rw [htext]
      exact ⟨[_], Cuts.of_cut hcut (.nil _), congrArg ([·]) (hword [])⟩
    | cons second words =>
      have hcut := Lexeme.cut_append_blank hcut
        (" ".intercalate ((second :: words).map (·.lexeme))).toList
      obtain ⟨others, hothers, hmap⟩ := ih ((mark.after (c :: cs)).after [' ']) hwords
      have hblank := Cuts.blank (c := ' ') rfl hothers
      have htext : (" ".intercalate ((first :: second :: words).map (·.lexeme))).toList =
          c :: (cs ++ ' ' :: (" ".intercalate ((second :: words).map (·.lexeme))).toList) := by
        simp [hlexeme, String.intercalate_cons_cons]
      rw [htext]
      exact ⟨_, Cuts.of_cut hcut hblank, congrArg₂ List.cons (hword _) hmap⟩

/-- Tokens survive being written out: with single blanks between their lexemes the text has the
    same tokens, and is written out as itself. -/
theorem Token.ofSource_written {source : String} {tokens : List Token}
    (htokens : ofSource source = .ok tokens) :
    ∃ others, ofSource (written tokens) = .ok others ∧ others.map word = tokens.map word ∧
      written others = written tokens := by
  obtain ⟨words, hcuts, rfl⟩ := ofSource_eq_ok htokens
  obtain ⟨others, hothers, hwords⟩ := exists_cuts_joined .start fun _ => hcuts.alone
  have hkinds : words.filter (·.kind ≠ .endOfInput) = words :=
    List.filter_eq_self.mpr fun word hword => decide_eq_true (hcuts.kind_ne_endOfInput hword)
  have hwritten : written (words ++ [endAt (Mark.start.after source.toList)]) =
      " ".intercalate (words.map (·.lexeme)) := by
    rw [written, List.filter_append, hkinds]
    simp [endAt]
  rw [hwritten]
  have hall (stop mark : Mark) :
      (others ++ [endAt stop]).map word = (words ++ [endAt mark]).map word := by
    rw [List.map_append, List.map_append, hwords]
    rfl
  refine ⟨_, ofSource_of_cuts hothers, hall _ _, ?_⟩
  rw [← hwritten]
  exact written_of_words_eq (hall _ _)

/-- A text whose tokens stand close together, with a number sign in a string and another one that
    begins a comment. -/
def Token.crammed : String :=
  "x asain-1--y\"# é\"nyan(2)# 3"

/-- Two signs that stand together are written as the one token they are. -/
theorem Token.ofSource_written_crammed :
    ∃ tokens others, ofSource crammed = .ok tokens ∧
      written tokens = "x asain - 1 -- y \"# é\" nyan ( 2 )" ∧
      ofSource (written tokens) = .ok others ∧ others.map word = tokens.map word ∧
      written others = written tokens := by
  have hwritten : (ofSource crammed).toOption.map written =
      some "x asain - 1 -- y \"# é\" nyan ( 2 )" := by decide +kernel
  cases htokens : ofSource crammed with
  | error error =>
    rw [htokens] at hwritten
    cases hwritten
  | ok tokens =>
    rw [htokens] at hwritten
    obtain ⟨others, hothers, hwords, hagain⟩ := ofSource_written htokens
    exact ⟨tokens, others, rfl, Option.some.inj hwritten, hothers, hwords, hagain⟩

end KawaiiLang
