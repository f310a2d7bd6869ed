import KawaiiLang.Proofs.Grammar.Nesting
import KawaiiLang.Proofs.Grammar.Separator
import KawaiiLang.Proofs.Parse.Program

namespace KawaiiLang

open Grammar (Gap Place Whole)
open Token (Ordered Extent)

/-- The span of a statement is that of the tokens in its place. -/
theorem Grammar.Place.extent {T : List Token → Prop} {inner : Stmt}
    {words before own gap after : List Token} (hplace : Place T inner words before own gap after)
    (hordered : Ordered words) : Extent own inner.span := by
  have hstart : own ++ (gap ++ after) <:+ words := by
    rw [hplace.split]
    exact List.suffix_append _ _
  have hlaid : Node.Laid _ (.statement inner) _ := hplace.derives.laid (hordered.of_suffix hstart)
  obtain ⟨others, hsplit, hextent⟩ := hlaid.exact
  rw [List.append_cancel_right hsplit]
  exact hextent

namespace Program

/-- Tokens as they come out of a text are a program also with some of them left out and with
    semicolons put in, if the grammar says so. -/
theorem ofTokens_of_edited {words others : List Token} {stop : Token} {program : Program}
    (htokens : Token.AsLexed (words ++ [stop]))
    (hothers : ∀ token ∈ others, token ∈ words ∨ token.kind = .symbol .semicolon)
    (hwhole : Whole others program) : ofTokens (others ++ [stop]) = .ok program := by
  obtain ⟨_, _, hsplit, hstop, hwords⟩ := htokens.ends
  obtain ⟨rfl, hlast⟩ := List.append_inj' hsplit rfl
  cases hlast
  refine (ofTokens_append_eq_ok_iff hstop (fun token htoken => ?_) fun token htoken => ?_).mpr hwhole
  · obtain hword | hsemicolon := hothers token htoken
    · exact hwords token hword
    · simp [hsemicolon]
  · obtain hword | hsemicolon := hothers token htoken
    · exact htokens.literate token (List.mem_append_left _ hword)
    · simp [Token.literate_iff, hsemicolon]

/-- The tokens are read as the program, but for the spans of its functions. -/
def RereadFrom (program : Program) (tokens : List Token) : Prop :=
  ∃ other, ofTokens tokens = .ok other ∧ program.Respanned other

theorem rereadFrom_regap {words before own gap after between : List Token} {stop : Token}
    {program : Program} {statement : Stmt} (htokens : Token.AsLexed (words ++ [stop]))
    (hplace : Place (fun words => ∃ other, program.Respanned other ∧ Whole words other) statement
      words before own gap after) (hbetween : Gap between)
    (hbare : (∃ span, statement = .returnWith none span) →
      ¬ Grammar.TakesValue (between ++ after)) :
    program.RereadFrom (before ++ own ++ (between ++ after) ++ [stop]) := by
  obtain ⟨other, hsame, hwhole⟩ := hplace.regap hbetween hbare
  rw [← List.append_assoc] at hwhole
  refine ⟨other, ofTokens_of_edited htokens (fun token htoken => ?_) hwhole, hsame⟩
  have hwords : words = before ++ (own ++ (gap ++ after)) := hplace.split
  simp only [List.mem_append] at htoken
  obtain (hbefore | hown) | hgap | hafter := htoken
  · exact .inl (by simp [hwords, hbefore])
  · exact .inl (by simp [hwords, hown])
  · cases hbetween with
    | nothing => cases hgap
    | semicolon hsemicolon =>
      obtain rfl := List.mem_singleton.mp hgap
      exact .inr hsemicolon
  · exact .inl (by simp [hwords, hafter])

/-- Semicolons do not matter, except behind a return without a value. Each statement of a program,
    which is one of a block or the only one of a function or of the main entry, has tokens of its
    own. A semicolon can be put behind them if there is none, and left out if there is one, and only
    the spans of functions can change. -/
theorem ofTokens_semicolon {words : List Token} {stop : Token} {program : Program}
    {statement : Stmt} (htokens : Token.AsLexed (words ++ [stop])) (hordered : Ordered words)
    (hprogram : ofTokens (words ++ [stop]) = .ok program)
    (hstatement : program.Contains (.statement statement)) :
    (∃ before own after, words = before ++ own ++ after ∧ Extent own statement.span) ∧
      ∀ before own after, words = before ++ own ++ after → Extent own statement.span →
        ((∀ next ∈ after.head?, next.kind ≠ .symbol .semicolon) →
          ∀ semicolon : Token, semicolon.kind = .symbol .semicolon →
            program.RereadFrom (before ++ own ++ semicolon :: after ++ [stop])) ∧
        ((¬ ∃ span, statement = .returnWith none span) →
          ∀ semicolon rest, after = semicolon :: rest → semicolon.kind = .symbol .semicolon →
            program.RereadFrom (before ++ own ++ rest ++ [stop])) := by
  have hwhole := (ofTokens_eq_ok_iff_whole htokens).mp hprogram
  obtain ⟨front, inside, gap, tail, hplace⟩ := hwhole.place hstatement
  have hextent := hplace.extent hordered
  have hwords : words = front ++ inside ++ (gap ++ tail) := by rw [hplace.split, List.append_assoc]
  refine ⟨⟨front, inside, gap ++ tail, hwords, hextent⟩, ?_⟩
  intro before own after hsplit hown
  obtain ⟨hfront, hafter⟩ := hown.split_unique hordered hextent hsplit hwords
  rw [hfront]
  cases hplace.gapped with
  | nothing =>
    subst hafter
    refine ⟨fun _ semicolon hsemicolon => ?_, ?_⟩
    · refine rereadFrom_regap htokens hplace (.semicolon hsemicolon) fun _ => ?_
      exact Grammar.not_takesValue_of_semicolon _ hsemicolon
    · rintro _ semicolon rest rfl hsemicolon
      exact absurd hsemicolon (hplace.onward.not_semicolon semicolon rfl)
  | @semicolon present hpresent =>
    subst hafter
    refine ⟨fun hnext => absurd hpresent (hnext present rfl), ?_⟩
    rintro hvalue _ _ ⟨⟩ _
    exact rereadFrom_regap htokens hplace .nothing fun hbare => absurd hbare hvalue

/-- Tokens of the given kinds, each of them one character wide. -/
def spelled (kinds : List Token.Kind) : List Token :=
  kinds.mapIdx fun index kind =>
    { kind, lexeme := "x", literal := none, span := .single index, position := ⟨1, index + 1⟩ }

/-- The tokens of `uWu_nyaa ( ) => { x ++ ; x -- }`. -/
def updates : List Token :=
  spelled [.keyword .uWuNyaa, .symbol .leftParen, .symbol .rightParen, .symbol .arrow,
    .symbol .leftBrace, .identifier, .symbol .increment, .symbol .semicolon, .identifier,
    .symbol .decrement, .symbol .rightBrace]

/-- The semicolon behind the first update can be left out, and one can be put behind the second. -/
theorem ofTokens_semicolon_updates :
    ∃ program semicolon, ofTokens (updates ++ [.endAt .start]) = .ok program ∧
      updates[7]? = some semicolon ∧ semicolon.kind = .symbol .semicolon ∧
      program.RereadFrom (updates.eraseIdx 7 ++ [.endAt .start]) ∧
      program.RereadFrom (updates.insertIdx 10 semicolon ++ [.endAt .start]) := by
  have hlexed : Token.AsLexed (updates ++ [.endAt .start]) := by
    refine ⟨⟨_, _, rfl, rfl, by decide⟩, ?_⟩
    simp [updates, spelled, Token.literate_iff, Token.endAt]
  have hordered : Ordered updates := ⟨by decide, by decide⟩
  have hprogram : ofTokens (updates ++ [.endAt .start]) =
      .ok ⟨[], some (.block [.update "x" .increment ⟨5, 7⟩, .update "x" .decrement ⟨8, 10⟩])⟩ := by
    cbv
  have hfirst := ofTokens_semicolon hlexed hordered hprogram (.main rfl List.mem_cons_self)
  have hsecond := ofTokens_semicolon hlexed hordered hprogram
    (.main rfl (List.mem_cons_of_mem _ List.mem_cons_self))
  refine ⟨_, _, hprogram, rfl, rfl, ?_, ?_⟩
  · exact (hfirst.2 (updates.take 5) [_, _] (updates.drop 7) rfl ⟨_, _, rfl, rfl, rfl⟩).2
      (by simp) _ _ rfl rfl
  · exact (hsecond.2 (updates.take 8) [_, _] (updates.drop 10) rfl ⟨_, _, rfl, rfl, rfl⟩).1
      (by decide) _ rfl

/-- The tokens of `uWu_nyaa ( ) => { sayonara ; x ( ) }`. -/
def returnThenCall : List Token :=
  spelled [.keyword .uWuNyaa, .symbol .leftParen, .symbol .rightParen, .symbol .arrow,
    .symbol .leftBrace, .keyword .sayonara, .symbol .semicolon, .identifier, .symbol .leftParen,
    .symbol .rightParen, .symbol .rightBrace]

-- Without its semicolon the return takes the call for its value.
example :
    ofTokens (returnThenCall ++ [.endAt .start]) =
        .ok ⟨[], some (.block [.returnWith none ⟨5, 6⟩, .call "x" [] ⟨7, 10⟩])⟩ ∧
      ofTokens (returnThenCall.eraseIdx 6 ++ [.endAt .start]) =
        .ok ⟨[], some (.block [.returnWith (some (.call "x" [] ⟨7, 10⟩)) ⟨5, 10⟩])⟩ := by
  constructor <;> cbv

end Program
end KawaiiLang
