import Mathlib
import KawaiiLang.Proofs.Parse.Complete.Program

namespace KawaiiLang

/-- Tokens as they come out of a text: the end is marked by the last one only, and the
    others are literate. -/
structure Token.AsLexed (tokens : List Token) : Prop where
  ends : ∃ words stop, tokens = words ++ [stop] ∧ stop.kind = .endOfInput ∧
    ∀ token ∈ words, token.kind ≠ .endOfInput
  literate : ∀ token ∈ tokens, token.Literate

/-- A cursor in front of tokens has all of them to read but the end mark. -/
theorem Cursor.ofTokens_append {words : List Token} {stop : Token}
    (hstop : stop.kind = .endOfInput) (hwords : ∀ token ∈ words, token.kind ≠ .endOfInput) :
    Cursor.ofTokens (words ++ [stop]) = ⟨none, words, stop⟩ := by
  have htake : ∀ token ∈ words, (!decide (token.kind = .endOfInput)) = true := by
    simpa using hwords
  have hfind : words.find? (fun token => decide (token.kind = .endOfInput)) = none := by
    simpa using hwords
  simp [Cursor.ofTokens, List.takeWhile_append_of_pos htake, hfind, hstop]

namespace Program

/-- The tokens in front of the end mark are read as a program just if they are one. -/
theorem ofTokens_append_eq_ok_iff {words : List Token} {stop : Token} {program : Program}
    (hstop : stop.kind = .endOfInput) (hwords : ∀ token ∈ words, token.kind ≠ .endOfInput)
    (hliterate : ∀ token ∈ words, token.Literate) :
    ofTokens (words ++ [stop]) = .ok program ↔ Grammar.Whole words program := by
  rw [ofTokens, Cursor.ofTokens_append hstop hwords]
  have hlexed : Cursor.Lexed ⟨none, words, stop⟩ := ⟨hliterate, hstop⟩
  constructor
  · intro hok
    split at hok
    · next hprogram =>
      cases hok
      exact Parser.program_eq_ok hlexed hprogram
    · cases hok
  · intro hwhole
    obtain ⟨final, hprogram⟩ := Parser.program_of_whole hlexed.stop_kind hwhole
    rw [hprogram]

theorem ofTokens_eq_ok_iff_whole {words : List Token} {stop : Token} {program : Program}
    (htokens : Token.AsLexed (words ++ [stop])) :
    ofTokens (words ++ [stop]) = .ok program ↔ Grammar.Whole words program := by
  obtain ⟨_, _, hsplit, hstop, hwords⟩ := htokens.ends
  obtain ⟨rfl, hlast⟩ := List.append_inj' hsplit rfl
  cases hlast
  exact ofTokens_append_eq_ok_iff hstop hwords fun token htoken =>
    htokens.literate token (List.mem_append_left _ htoken)

/-- A list of tokens ends in one way only. -/
theorem derivesProgram_append_iff {words : List Token} {stop : Token} {program : Program}
    (hstop : stop.kind = .endOfInput) :
    Grammar.DerivesProgram (words ++ [stop]) program ↔ Grammar.Whole words program := by
  constructor
  · rintro ⟨others, last, hsplit, _, hwhole⟩
    obtain ⟨rfl, _⟩ := List.append_inj' hsplit rfl
    exact hwhole
  · intro hwhole
    exact ⟨words, stop, rfl, hstop, hwhole⟩

/-- The parser accepts just what the grammar derives, as the one program that the grammar
    derives, and refuses everything else with a syntax error. -/
theorem ofTokens_eq_ok_iff_derives {tokens : List Token} (htokens : Token.AsLexed tokens) :
    (∀ program, ofTokens tokens = .ok program ↔ Grammar.DerivesProgram tokens program) ∧
      (∀ first second, Grammar.DerivesProgram tokens first →
        Grammar.DerivesProgram tokens second → first = second) ∧
      ((¬ ∃ program, Grammar.DerivesProgram tokens program) →
        ∃ error, ofTokens tokens = .error error ∧ error.toDiagnostic.kind = .syntactic) := by
  obtain ⟨words, stop, rfl, hstop, hwords⟩ := htokens.ends
  have hliterate : ∀ token ∈ words, token.Literate :=
    fun token htoken => htokens.literate token (List.mem_append_left _ htoken)
  have hiff : ∀ program, ofTokens (words ++ [stop]) = .ok program ↔
      Grammar.DerivesProgram (words ++ [stop]) program := by
    intro program
    rw [ofTokens_append_eq_ok_iff hstop hwords hliterate, derivesProgram_append_iff hstop]
  refine ⟨hiff, ?_, ?_⟩
  · intro first second hfirst hsecond
    have hfirst := (hiff first).mpr hfirst
    rw [(hiff second).mpr hsecond] at hfirst
    cases hfirst
    rfl
  · intro hnone
    cases hresult : ofTokens (words ++ [stop]) with
    | ok program => exact absurd ⟨program, (hiff program).mp hresult⟩ hnone
    | error error => exact ⟨error, rfl, rfl⟩

/-- The tokens of `uWu_nyaa ( ) => { sayonara x ++ x asain 1 - 2 - 3 }`, each of them one
    character wide. -/
def returnBeforeUpdate : List Token :=
  let words : List (Token.Kind × Option Literal) :=
    [(.keyword .uWuNyaa, none), (.symbol .leftParen, none), (.symbol .rightParen, none),
      (.symbol .arrow, none), (.symbol .leftBrace, none), (.keyword .sayonara, none),
      (.identifier, none), (.symbol .increment, none), (.identifier, none),
      (.keyword .asain, none), (.integer, some (.int 1)), (.symbol .minus, none),
      (.integer, some (.int 2)), (.symbol .minus, none), (.integer, some (.int 3)),
      (.symbol .rightBrace, none), (.endOfInput, none)]
  words.mapIdx fun index (kind, literal) =>
    { kind, lexeme := "x", literal, span := .single index, position := ⟨1, index + 1⟩ }

/-- The return takes no value in front of the update, and differences group to the right. -/
theorem ofTokens_returnBeforeUpdate :
    Token.AsLexed returnBeforeUpdate ∧
      Grammar.DerivesProgram returnBeforeUpdate
        ⟨[], some (.block [.returnWith none ⟨5, 6⟩, .update "x" .increment ⟨6, 8⟩,
          .assign "x" (.binary .subtract (.literal (.int 1) ⟨10, 11⟩)
            (.binary .subtract (.literal (.int 2) ⟨12, 13⟩) (.literal (.int 3) ⟨14, 15⟩)
              ⟨12, 15⟩) ⟨10, 15⟩) ⟨8, 15⟩])⟩ := by
  have hlexed : Token.AsLexed returnBeforeUpdate := by
    have hsome : returnBeforeUpdate ≠ [] := nofun
    refine ⟨⟨_, _, (List.dropLast_concat_getLast hsome).symm, rfl, by decide⟩, ?_⟩
    simp [returnBeforeUpdate, Token.literate_iff]
  exact ⟨hlexed, ((ofTokens_eq_ok_iff_derives hlexed).1 _).mp (by cbv)⟩

end Program
end KawaiiLang
