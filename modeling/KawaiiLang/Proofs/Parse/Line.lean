import KawaiiLang.Proofs.Parse.Location.Line
import KawaiiLang.Proofs.Parse.Program

namespace KawaiiLang

open Grammar (Phrase Clause Definition)

namespace Grammar

/-- All words as a line of a session. What is an expression as a whole is no statements. -/
inductive WholeLine : List Token → Line → Prop where
  | empty : WholeLine [] .empty
  | definition {words : List Token} {function : FunctionDef}
      (hfunction : Definition words function []) : WholeLine words (.definition function)
  | expression {words : List Token} {value : Expr}
      (hvalue : Phrase.expression.Derives words value []) : WholeLine words (.expression value)
  | statements {words : List Token} {body : List Stmt} (hsome : body ≠ [])
      (hbody : Clause.body.Derives words body [])
      (hnone : ¬ ∃ value, Phrase.expression.Derives words value []) :
      WholeLine words (.statements body)

/-- The kinds of tokens that make a statement of the name in front of them. -/
def nameStatementKinds : List Token.Kind :=
  [.keyword .asain, .symbol .increment, .symbol .decrement]

/-- A name that begins an expression is all of it, or what follows the name leaves it one. -/
theorem Phrase.Derives.not_nameStatement {phrase : Phrase} {token : Token} {input rest : List Token}
    {tree : phrase.Tree} (hphrase : phrase.Derives (token :: input) tree rest)
    (htoken : token.kind = .identifier) :
    rest = input ∨ ∀ next ∈ input.head?, next.kind ∉ nameStatementKinds := by
  -- The first operand is the name alone, and the sign behind it is none of these, or else the
  -- operand itself tells what follows the name.
  have hsign {sign : Token} {middle : List Token} (hplain : sign.kind ∉ nameStatementKinds)
      (hleft : sign :: middle = input ∨ ∀ next ∈ input.head?, next.kind ∉ nameStatementKinds) :
      ∀ next ∈ input.head?, next.kind ∉ nameStatementKinds := by
    obtain rfl | hleft := hleft
    · simpa using hplain
    · exact hleft
  generalize hwords : token :: input = words at hphrase
  induction hphrase with
  | expression _ ih | simple _ ih | term _ ih | item _ ih => exact ih hwords
  | comparison _ hop _ ih =>
    have hplain : ∀ pair ∈ relationalOps, pair.1 ∉ nameStatementKinds := by decide
    exact .inr (hsign (hplain _ hop) (ih hwords))
  | sum _ hop _ ih =>
    have hplain : ∀ pair ∈ additiveOps, pair.1 ∉ nameStatementKinds := by decide
    exact .inr (hsign (hplain _ hop) (ih hwords))
  | product _ hop _ ih =>
    have hplain : ∀ pair ∈ multiplicativeOps, pair.1 ∉ nameStatementKinds := by decide
    exact .inr (hsign (hplain _ hop) (ih hwords))
  | items _ hcomma _ ih =>
    have hplain : Token.Kind.symbol .comma ∉ nameStatementKinds := by decide
    exact .inr (hsign (hcomma ▸ hplain) (ih hwords))
  | name =>
    cases hwords
    exact .inl rfl
  | call _ hargs =>
    obtain ⟨opening, more, rfl, hopening⟩ := hargs.exists_opening
    cases hwords
    have hplain : Token.Kind.symbol .leftParen ∉ nameStatementKinds := by decide
    refine .inr ?_
    simpa [hopening] using hplain
  | negation hkind | complement hkind | group hkind | print hkind | input hkind | hai hkind
  | iie hkind | integer hkind | float hkind | string hkind | noArguments hkind | arguments hkind =>
    cases hwords
    cases htoken.symm.trans hkind

theorem Phrase.endsAt_nil (phrase : Phrase) : phrase.EndsAt [] := by
  intro token htoken
  cases htoken

theorem Clause.endsAt_nil (clause : Clause) : clause.EndsAt [] := by
  intro token htoken
  cases htoken

end Grammar

namespace Parser

/-- A line that is only tried as statements. -/
def statementLine : Parser (List Stmt) := do
  let body ← bodyOf statement
  finished .statement
  return body

theorem atNameStatement_eq_true_iff {cursor : Cursor} :
    cursor.atNameStatement = true ↔
      cursor.current.kind = .identifier ∧ cursor.following.kind ∈ Grammar.nameStatementKinds := by
  simp only [Cursor.atNameStatement, Bool.and_eq_true, decide_eq_true_eq, Grammar.nameStatementKinds]
  refine and_congr_right fun _ => ?_
  split <;> simp_all

variable {cursor final : Cursor}

/-- What is read as one expression takes all tokens. -/
theorem rest_of_wholeExpression?_eq_ok {value : Expr}
    (hvalue : wholeExpression? cursor = .ok (some value) final) : final.rest = [] := by
  unfold wholeExpression? at hvalue
  split at hvalue
  · split at hvalue
    · split at hvalue
      · next hend =>
        cases hvalue
        exact List.isEmpty_iff.mp hend
      · cases hvalue
    · cases hvalue
  · cases hvalue

/-- The guard keeps no expression out. -/
theorem wholeExpression?_of_derives (hlexed : cursor.Lexed) {value : Expr}
    (hvalue : Phrase.expression.Derives cursor.rest value []) :
    wholeExpression? cursor = .ok (some value) (cursor.movedTo []) := by
  have hread := expression_movedTo (List.suffix_refl cursor.rest) hvalue (Phrase.endsAt_nil _)
  rw [Cursor.movedTo_rest] at hread
  obtain ⟨token, more, hrest, hstart, _⟩ := hvalue.exists_cons
  have hcurrent : cursor.current = token := by rw [Cursor.current, hrest, List.headD_cons]
  have hname : cursor.atNameStatement = false := by
    rw [Bool.eq_false_iff, ne_eq, atNameStatement_eq_true_iff, hcurrent]
    rintro ⟨htoken, hfollowing⟩
    rw [hrest] at hvalue
    rw [Cursor.following, hrest, List.tail_cons] at hfollowing
    cases more with
    | nil =>
      rw [List.headD_nil, hlexed.stop_kind] at hfollowing
      exact absurd hfollowing (by decide)
    | cons next more =>
      obtain hnil | hnext := hvalue.not_nameStatement htoken
      · cases hnil
      · exact hnext next rfl hfollowing
  rw [wholeExpression?, hcurrent, hstart, hname, hread]
  rfl

theorem line_of_rest_eq_nil (hrest : cursor.rest = []) : line cursor = .ok .empty cursor := by
  rw [line, bind_of_eq_ok (atEnd_apply cursor), hrest]
  rfl

theorem line_of_kawaii {token : Token} {input : List Token} (hrest : cursor.rest = token :: input)
    (htoken : token.kind = .keyword .kawaii) :
    line cursor = (do
      let function ← definition token.span
      finished .endAfterDefinition
      return .definition function : Parser Line) (cursor.movedTo input) := by
  have hmore : ¬ cursor.rest.isEmpty = true := by simp [hrest]
  have hinput : token :: input <:+ cursor.rest := hrest ▸ List.suffix_refl _
  have haccept := accept_movedTo hinput htoken
  rw [← hrest, Cursor.movedTo_rest] at haccept
  rw [line, bind_of_eq_ok (atEnd_apply cursor), if_neg hmore, bind_of_eq_ok haccept]

section

-- A line that defines no function.
variable (hsome : cursor.rest ≠ [])
  (hkind : ∀ token ∈ cursor.rest.head?, token.kind ≠ .keyword .kawaii)

include hsome hkind

theorem line_of_wholeExpression {value : Expr}
    (hvalue : wholeExpression? cursor = .ok (some value) final) :
    line cursor = .ok (.expression value) final := by
  have hmore : ¬ cursor.rest.isEmpty = true := by simpa using hsome
  rw [line, bind_of_eq_ok (atEnd_apply cursor), if_neg hmore,
    bind_of_eq_ok (accept_of_kind_ne hkind)]
  dsimp only
  rw [bind_of_eq_ok hvalue]
  rfl

/-- What is no expression is read from the front as statements. -/
theorem line_of_statementLine (hnone : wholeExpression? cursor = .ok none cursor) :
    line cursor = (do return .statements (← statementLine) : Parser Line) cursor := by
  have hmore : ¬ cursor.rest.isEmpty = true := by simpa using hsome
  rw [line, bind_of_eq_ok (atEnd_apply cursor), if_neg hmore,
    bind_of_eq_ok (accept_of_kind_ne hkind)]
  dsimp only
  rw [bind_of_eq_ok hnone]
  simp only [statementLine, bind_assoc, pure_bind]

end

theorem statementLine_eq_ok {body : List Stmt} (hlexed : cursor.Lexed)
    (hbody : statementLine cursor = .ok body final) : Clause.body.Derives cursor.rest body [] := by
  rw [statementLine, bind_eq_ok_iff] at hbody
  obtain ⟨_, last, hbody, hfinished⟩ := hbody
  rw [bodyOf, bind_of_eq_ok (remaining_apply cursor)] at hbody
  rw [bind_eq_ok_iff] at hfinished
  obtain ⟨_, _, hfinished, hresult⟩ := hfinished
  obtain ⟨hend, rfl⟩ := finished_eq_ok hfinished
  obtain ⟨rfl, rfl⟩ := pure_eq_ok_iff.mp hresult
  rw [← hend]
  exact (sound_sequence sound_statement _ hlexed hbody).2

theorem statementLine_of_derives (hlexed : cursor.Lexed) {body : List Stmt}
    (hbody : Clause.body.Derives cursor.rest body []) :
    statementLine cursor = .ok body (cursor.movedTo []) := by
  have hread : bodyOf statement cursor = .ok body (cursor.movedTo []) := by
    have hsequence := sequence_movedTo (statement_completes hlexed.stop_kind _) hlexed.stop_kind
      hbody (Clause.endsAt_nil _) (List.suffix_refl _) (Nat.le_refl _) (Nat.le_refl _)
    rwa [Cursor.movedTo_rest] at hsequence
  have hend : (cursor.movedTo []).rest = [] := rfl
  rw [statementLine, bind_of_eq_ok hread, bind_of_eq_ok (finished_of_rest_eq hend)]
  rfl

/-- What is read as a line is one. -/
theorem line_eq_ok (hlexed : cursor.Lexed) {result : Line} (hline : line cursor = .ok result final) :
    Grammar.WholeLine cursor.rest result := by
  cases hrest : cursor.rest with
  | nil =>
    rw [line_of_rest_eq_nil hrest] at hline
    cases hline
    exact .empty
  | cons token input =>
    by_cases htoken : token.kind = .keyword .kawaii
    · rw [line_of_kawaii hrest htoken, bind_eq_ok_iff] at hline
      obtain ⟨function, last, hfunction, hline⟩ := hline
      rw [bind_eq_ok_iff] at hline
      obtain ⟨_, _, hfinished, hline⟩ := hline
      obtain ⟨hend, rfl⟩ := finished_eq_ok hfinished
      obtain ⟨rfl, rfl⟩ := pure_eq_ok_iff.mp hline
      have hreaches : cursor.Reaches (cursor.movedTo input) :=
        ⟨hrest ▸ List.suffix_cons token input, rfl⟩
      have hderives := (definition_eq_ok hlexed hrest hreaches htoken hfunction).2
      rw [hend, hrest] at hderives
      exact .definition hderives
    · have hkind : ∀ first ∈ cursor.rest.head?, first.kind ≠ .keyword .kawaii := by
        simpa [hrest] using htoken
      have hsome : cursor.rest ≠ [] := by simp [hrest]
      obtain hwhole | ⟨value, middle, hvalue, hwhole⟩ := wholeExpression?_cases cursor
      · rw [line_of_statementLine hsome hkind hwhole, bind_eq_ok_iff] at hline
        obtain ⟨body, last, hbody, hline⟩ := hline
        obtain ⟨rfl, rfl⟩ := pure_eq_ok_iff.mp hline
        have hderives := statementLine_eq_ok hlexed hbody
        rw [hrest] at hderives
        refine .statements ?_ hderives ?_
        · rintro rfl
          cases hderives
        · rintro ⟨value, hvalue⟩
          rw [← hrest] at hvalue
          rw [wholeExpression?_of_derives hlexed hvalue] at hwhole
          cases hwhole
      · rw [line_of_wholeExpression hsome hkind hwhole] at hline
        cases hline
        have hend := rest_of_wholeExpression?_eq_ok hwhole
        have hderives := (sound_expression hlexed hvalue).2
        rw [hend, hrest] at hderives
        exact .expression hderives

/-- What is a line is read as one. -/
theorem line_of_wholeLine (hlexed : cursor.Lexed) {result : Line}
    (hwhole : Grammar.WholeLine cursor.rest result) : ∃ final, line cursor = .ok result final := by
  generalize hrest : cursor.rest = words at hwhole
  cases hwhole with
  | empty => exact ⟨cursor, line_of_rest_eq_nil hrest⟩
  | definition hfunction =>
    obtain ⟨token, input, rfl, htoken, _⟩ := hfunction.exists_start
    have hread := definition_movedTo hlexed.stop_kind hfunction .nil (hrest ▸ List.suffix_refl _)
    rw [line_of_kawaii hrest htoken, bind_of_eq_ok hread,
      bind_of_eq_ok (finished_of_rest_eq (Cursor.rest_movedTo cursor []))]
    exact ⟨_, rfl⟩
  | expression hvalue =>
    obtain ⟨token, input, rfl, hstart, _⟩ := hvalue.exists_cons
    have hkind : ∀ first ∈ cursor.rest.head?, first.kind ≠ .keyword .kawaii := by
      rw [hrest]
      rintro _ hfirst hkind
      cases hfirst
      rw [hkind] at hstart
      cases hstart
    have hsome : cursor.rest ≠ [] := by simp [hrest]
    rw [← hrest] at hvalue
    exact ⟨_, line_of_wholeExpression hsome hkind (wholeExpression?_of_derives hlexed hvalue)⟩
  | statements hsome hbody hnone =>
    have hwords : words ≠ [] := by
      rintro rfl
      cases hbody with
      | empty => exact hsome rfl
      | plain hfirst | terminated hfirst =>
        obtain ⟨_, _, hinput, _⟩ := hfirst.exists_start
        cases hinput
    have hkind : ∀ first ∈ cursor.rest.head?, first.kind ≠ .keyword .kawaii := by
      rw [hrest]
      intro first hfirst hkind
      obtain hstart | hbrace := hbody.body_head (Clause.endsAt_nil _) first hfirst
      · rw [hkind] at hstart
        cases hstart
      · cases hkind.symm.trans hbrace
    rw [← hrest] at hbody hwords
    obtain hwhole | ⟨value, final, hvalue, hwhole⟩ := wholeExpression?_cases cursor
    · rw [line_of_statementLine hwords hkind hwhole,
        bind_of_eq_ok (statementLine_of_derives hlexed hbody)]
      exact ⟨_, rfl⟩
    · have hderives := (sound_expression hlexed hvalue).2
      rw [rest_of_wholeExpression?_eq_ok hwhole, hrest] at hderives
      exact absurd ⟨value, hderives⟩ hnone

/-- The error of a line that defines no function is that of its statements. -/
theorem statementLine_of_line_eq_error {error : SyntaxError} (hline : line cursor = .error error final)
    (hkind : ∀ token ∈ cursor.rest.head?, token.kind ≠ .keyword .kawaii) :
    ∃ last, statementLine cursor = .error error last := by
  have hsome : cursor.rest ≠ [] := by
    intro hrest
    rw [line_of_rest_eq_nil hrest] at hline
    cases hline
  obtain hnone | ⟨value, middle, _, hvalue⟩ := wholeExpression?_cases cursor
  · rw [line_of_statementLine hsome hkind hnone] at hline
    cases hbody : statementLine cursor with
    | ok body last =>
      rw [bind_of_eq_ok hbody] at hline
      cases hline
    | error other last =>
      rw [bind_of_eq_error hbody] at hline
      cases hline
      exact ⟨_, rfl⟩
  · rw [line_of_wholeExpression hsome hkind hvalue] at hline
    cases hline

end Parser

namespace Line

/-- The tokens in front of the end mark are read as a line just if they are one. -/
theorem ofTokens_append_eq_ok_iff {words : List Token} {stop : Token} {line : Line}
    (hstop : stop.kind = .endOfInput) (hwords : ∀ token ∈ words, token.kind ≠ .endOfInput)
    (hliterate : ∀ token ∈ words, token.Literate) :
    ofTokens (words ++ [stop]) = .ok line ↔ Grammar.WholeLine words line := by
  have hlexed : Cursor.Lexed ⟨none, words, stop⟩ := ⟨hliterate, hstop⟩
  rw [ofTokens, Cursor.ofTokens_append hstop hwords]
  constructor
  · intro hok
    split at hok
    · next hline =>
      cases hok
      exact Parser.line_eq_ok hlexed hline
    · cases hok
  · intro hwhole
    obtain ⟨final, hline⟩ := Parser.line_of_wholeLine hlexed hwhole
    rw [hline]

/-- A line is read as the only thing that it can be, with an expression before statements. If it
    can be nothing, that is an error, and unless the line seems to define a function it is the
    error of a line of statements. -/
theorem ofTokens_classifies {words : List Token} {stop : Token}
    (htokens : Token.AsLexed (words ++ [stop])) :
    (∀ line, ofTokens (words ++ [stop]) = .ok line ↔ Grammar.WholeLine words line) ∧
      ((∀ line, ¬ Grammar.WholeLine words line) →
        ∃ error, ofTokens (words ++ [stop]) = .error error ∧
          ((∀ token ∈ words.head?, token.kind ≠ .keyword .kawaii) →
            ∃ final, Parser.statementLine (.ofTokens (words ++ [stop])) = .error error final)) := by
  obtain ⟨others, last, hsplit, hstop, hwords⟩ := htokens.ends
  obtain ⟨rfl, hlast⟩ := List.append_inj' hsplit rfl
  cases hlast
  have hliterate : ∀ token ∈ words, token.Literate :=
    fun token htoken => htokens.literate token (List.mem_append_left _ htoken)
  have hiff : ∀ line, ofTokens (words ++ [stop]) = .ok line ↔ Grammar.WholeLine words line :=
    fun _ => ofTokens_append_eq_ok_iff hstop hwords hliterate
  refine ⟨hiff, ?_⟩
  intro hnone
  cases hresult : ofTokens (words ++ [stop]) with
  | ok line => exact absurd ((hiff line).mp hresult) (hnone line)
  | error error =>
    refine ⟨error, rfl, ?_⟩
    intro hkind
    rw [Cursor.ofTokens_append hstop hwords]
    rw [ofTokens, Cursor.ofTokens_append hstop hwords] at hresult
    split at hresult
    · cases hresult
    · next hline =>
      cases hresult
      exact Parser.statementLine_of_line_eq_error hline hkind

/-- The words of `f ( ) ; y`, each of them one character wide. -/
def callThenName : List Token :=
  let words : List (Token.Kind × String) :=
    [(.identifier, "f"), (.symbol .leftParen, "("), (.symbol .rightParen, ")"),
      (.symbol .semicolon, ";"), (.identifier, "y")]
  words.mapIdx fun index (kind, lexeme) =>
    { kind, lexeme, literal := none, span := .single index, position := ⟨1, index + 1⟩ }

/-- The call is read as an expression first, but the error is that of the statement behind it. -/
theorem ofTokens_classifies_callThenName :
    Token.AsLexed (callThenName ++ [.endAt .start]) ∧
      (∀ line, ¬ Grammar.WholeLine callThenName line) ∧
      ∃ error final, ofTokens (callThenName ++ [.endAt .start]) = .error error ∧
        Parser.statementLine (.ofTokens (callThenName ++ [.endAt .start])) = .error error final ∧
        error.fault = .expected (.nameUse "y") := by
  have hlexed : Token.AsLexed (callThenName ++ [.endAt .start]) := by
    refine ⟨⟨callThenName, _, rfl, rfl, by decide⟩, ?_⟩
    simp [callThenName, Token.literate_iff, Token.endAt]
  obtain ⟨hiff, herror⟩ := ofTokens_classifies hlexed
  obtain ⟨error, hresult, hfault⟩ : ∃ error,
      ofTokens (callThenName ++ [.endAt .start]) = .error error ∧
        error.fault = .expected (.nameUse "y") := ⟨_, by cbv, by cbv⟩
  have hnone : ∀ line, ¬ Grammar.WholeLine callThenName line := by
    intro line hline
    rw [(hiff line).mpr hline] at hresult
    cases hresult
  obtain ⟨other, hother, hstatements⟩ := herror hnone
  rw [hother] at hresult
  cases hresult
  obtain ⟨final, hstatements⟩ := hstatements (by decide)
  exact ⟨hlexed, hnone, error, final, hother, hstatements, hfault⟩

end Line
end KawaiiLang
