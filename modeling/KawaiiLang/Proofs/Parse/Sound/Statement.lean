import KawaiiLang.Parse.Statement
import KawaiiLang.Proofs.Grammar.Statement
import KawaiiLang.Proofs.Parse.Sound.Expression

namespace KawaiiLang

open Grammar (Phrase Clause)

namespace Cursor

theorem atNameStatement_iff {cursor : Cursor} {token : Token} {more : List Token}
    (hstop : cursor.stop.kind = .endOfInput) (hrest : cursor.rest = token :: more) :
    cursor.atNameStatement = true ↔ token.kind = .identifier ∧
      ∃ next ∈ more.head?, next.kind = .keyword .asain ∨ next.kind = .symbol .increment ∨
        next.kind = .symbol .decrement := by
  have hcurrent : cursor.current = token := by simp [current, hrest]
  rw [atNameStatement, hcurrent, Bool.and_eq_true, decide_eq_true_eq]
  refine and_congr_right fun _ => ?_
  cases more with
  | nil =>
    have hfollowing : cursor.following.kind = .endOfInput := by simp [following, hrest, hstop]
    simp [hfollowing]
  | cons next others =>
    have hfollowing : cursor.following = next := by simp [following, hrest]
    rw [hfollowing]
    split <;> simp_all

/-- A cursor stands in front of the value of a return just where the grammar says so. -/
theorem atReturnValue_iff {cursor : Cursor} (hstop : cursor.stop.kind = .endOfInput) :
    cursor.atReturnValue = true ↔ Grammar.TakesValue cursor.rest := by
  cases hrest : cursor.rest with
  | nil =>
    have hcurrent : cursor.current.kind = .endOfInput := by simp [current, hrest, hstop]
    constructor
    · intro hreturn
      simp [atReturnValue, hcurrent, Token.Kind.startsExpression] at hreturn
    · rintro ⟨token, more, hcons, _⟩
      cases hcons
  | cons token more =>
    have hcurrent : cursor.current = token := by simp [current, hrest]
    have hname := atNameStatement_iff hstop hrest
    constructor
    · intro hreturn
      simp only [atReturnValue, hcurrent, Bool.and_eq_true, decide_eq_true_eq, Bool.not_eq_true',
        Bool.eq_false_iff, ne_eq, hname] at hreturn
      obtain ⟨⟨⟨hstart, hprint⟩, hinput⟩, hname⟩ := hreturn
      exact ⟨token, more, rfl, Grammar.startsExpression_iff.mpr hstart, hprint, hinput, hname⟩
    · rintro ⟨_, _, hcons, hstart, hprint, hinput, hnext⟩
      cases hcons
      rw [Grammar.startsExpression_iff] at hstart
      simp only [atReturnValue, hcurrent, Bool.and_eq_true, decide_eq_true_eq, Bool.not_eq_true',
        Bool.eq_false_iff, ne_eq, hname]
      exact ⟨⟨⟨hstart, hprint⟩, hinput⟩, hnext⟩

end Cursor

namespace Parser

theorem seesStatement_apply (cursor : Cursor) :
    seesStatement cursor = .ok cursor.current.kind.startsStatement cursor :=
  rfl

/-- A statement with its semicolon is what a body consists of. -/
theorem terminated_eq_ok {statement : Parser Stmt}
    (hstatement : Sound statement Clause.statement.Derives) {cursor final : Cursor} {first : Stmt}
    (hlexed : cursor.Lexed) (hterminated : terminated statement cursor = .ok first final) :
    cursor.Reaches final ∧ (Clause.statement.Derives cursor.rest first final.rest ∨
      ∃ semicolon, semicolon.kind = .symbol .semicolon ∧
        Clause.statement.Derives cursor.rest first (semicolon :: final.rest)) := by
  rw [terminated, bind_eq_ok_iff] at hterminated
  obtain ⟨_, middle, hfirst, hterminated⟩ := hterminated
  obtain ⟨hmiddle, hfirst⟩ := hstatement hlexed hfirst
  rw [bind_eq_ok_iff] at hterminated
  obtain ⟨result, last, haccept, hterminated⟩ := hterminated
  obtain ⟨rfl, rfl⟩ := pure_eq_ok_iff.mp hterminated
  obtain ⟨rfl, rfl⟩ | ⟨semicolon, rfl, hrest, hsemicolon, hlast⟩ := accept_cases haccept
  · exact ⟨hmiddle, .inl hfirst⟩
  · exact ⟨hmiddle.trans hlast, .inr ⟨semicolon, hsemicolon, hrest ▸ hfirst⟩⟩

theorem sound_sequence {statement : Parser Stmt}
    (hstatement : Sound statement Clause.statement.Derives) (bound : Nat) :
    Sound (sequence statement bound) Clause.body.Derives := by
  induction bound with
  | zero =>
    intro cursor final body hlexed hsequence
    obtain ⟨rfl, rfl⟩ := pure_eq_ok_iff.mp hsequence
    exact ⟨.refl cursor, .empty⟩
  | succ bound ih =>
    intro cursor final body hlexed hsequence
    rw [sequence, bind_of_eq_ok (seesStatement_apply cursor)] at hsequence
    split at hsequence
    · rw [bind_eq_ok_iff] at hsequence
      obtain ⟨first, middle, hfirst, hsequence⟩ := hsequence
      obtain ⟨hmiddle, hfirst⟩ := terminated_eq_ok hstatement hlexed hfirst
      rw [bind_eq_ok_iff] at hsequence
      obtain ⟨others, last, hothers, hsequence⟩ := hsequence
      obtain ⟨rfl, rfl⟩ := pure_eq_ok_iff.mp hsequence
      obtain ⟨hlast, hothers⟩ := ih (hlexed.of_reaches hmiddle) hothers
      refine ⟨hmiddle.trans hlast, ?_⟩
      obtain hfirst | ⟨semicolon, hsemicolon, hfirst⟩ := hfirst
      · exact .plain hfirst hothers
      · exact .terminated hfirst hsemicolon hothers
    · obtain ⟨rfl, rfl⟩ := pure_eq_ok_iff.mp hsequence
      exact ⟨.refl cursor, .empty⟩

/-- Behind an opening brace, a block is read up to its closing one. -/
theorem blockOf_eq_ok {statement : Parser Stmt}
    (hstatement : Sound statement Clause.statement.Derives) {opening : Token}
    {cursor first final : Cursor} {body : List Stmt} (hlexed : cursor.Lexed)
    (hrest : cursor.rest = opening :: first.rest) (hopening : opening.kind = .symbol .leftBrace)
    (hfirst : cursor.Reaches first) (hblock : blockOf statement first = .ok body final) :
    cursor.Reaches final ∧ Clause.block.Derives cursor.rest body final.rest := by
  rw [blockOf, bind_eq_ok_iff] at hblock
  obtain ⟨_, second, hbody, hblock⟩ := hblock
  rw [bodyOf, bind_of_eq_ok (remaining_apply first)] at hbody
  obtain ⟨hsecond, hbody⟩ := sound_sequence hstatement _ (hlexed.of_reaches hfirst) hbody
  rw [bind_eq_ok_iff] at hblock
  obtain ⟨closing, last, hexpect, hblock⟩ := hblock
  obtain ⟨rfl, rfl⟩ := pure_eq_ok_iff.mp hblock
  obtain ⟨hsecondRest, hclosing, hlast⟩ := expect_eq_ok hexpect
  rw [hsecondRest] at hbody
  rw [hrest]
  exact ⟨hfirst.trans (hsecond.trans hlast), .block hopening hbody hclosing⟩

theorem braced_eq_ok {statement : Parser Stmt}
    (hstatement : Sound statement Clause.statement.Derives) {α : Type} {expectation : Expectation}
    {next : List Stmt → Parser α} {cursor final : Cursor} {result : α} (hlexed : cursor.Lexed)
    (hnext : (do
      let _ ← expect (.symbol .leftBrace) expectation
      let body ← blockOf statement
      next body) cursor = .ok result final) :
    ∃ body last, Clause.block.Derives cursor.rest body last.rest ∧ cursor.Reaches last ∧
      next body last = .ok result final := by
  rw [bind_eq_ok_iff] at hnext
  obtain ⟨opening, first, hexpect, hnext⟩ := hnext
  obtain ⟨hrest, hopening, hfirst⟩ := expect_eq_ok hexpect
  rw [bind_eq_ok_iff] at hnext
  obtain ⟨body, last, hbody, hnext⟩ := hnext
  obtain ⟨hlast, hbody⟩ := blockOf_eq_ok hstatement hlexed hrest hopening hfirst hbody
  exact ⟨body, last, hbody, hlast, hnext⟩

/-- A condition stands in parentheses, and what follows it is read behind them. -/
theorem condition_eq_ok {α : Type} {openExpectation closeExpectation : Expectation}
    {next : Expr → Parser α} {cursor final : Cursor} {result : α} (hlexed : cursor.Lexed)
    (hnext : (do
      let _ ← expect (.symbol .leftParen) openExpectation
      let condition ← expression
      let _ ← expect (.symbol .rightParen) closeExpectation
      next condition) cursor = .ok result final) :
    ∃ opening closing input condition last, cursor.rest = opening :: input ∧
      opening.kind = .symbol .leftParen ∧
      Phrase.expression.Derives input condition (closing :: last.rest) ∧
      closing.kind = .symbol .rightParen ∧ cursor.Reaches last ∧
      next condition last = .ok result final := by
  rw [bind_eq_ok_iff] at hnext
  obtain ⟨opening, first, hexpect, hnext⟩ := hnext
  obtain ⟨hrest, hopening, hfirst⟩ := expect_eq_ok hexpect
  rw [bind_eq_ok_iff] at hnext
  obtain ⟨condition, second, hcondition, hnext⟩ := hnext
  obtain ⟨hsecond, hcondition⟩ := sound_expression (hlexed.of_reaches hfirst) hcondition
  rw [bind_eq_ok_iff] at hnext
  obtain ⟨closing, last, hexpect, hnext⟩ := hnext
  obtain ⟨hsecondRest, hclosing, hlast⟩ := expect_eq_ok hexpect
  rw [hsecondRest] at hcondition
  exact ⟨opening, closing, first.rest, condition, last, hrest, hopening, hcondition, hclosing,
    hfirst.trans (hsecond.trans hlast), hnext⟩

/-- The parts of a branch as they follow one another. -/
theorem branchOf_eq_ok {statement : Parser Stmt}
    (hstatement : Sound statement Clause.statement.Derives) {keyword : Keyword}
    {cursor final : Cursor} {branch : Expr × List Stmt} (hlexed : cursor.Lexed)
    (hbranch : branchOf statement keyword cursor = .ok branch final) :
    cursor.Reaches final ∧ ∃ opening closing input middle, cursor.rest = opening :: input ∧
      opening.kind = .symbol .leftParen ∧
      Phrase.expression.Derives input branch.1 (closing :: middle) ∧
      closing.kind = .symbol .rightParen ∧ Clause.block.Derives middle branch.2 final.rest := by
  rw [branchOf] at hbranch
  obtain ⟨opening, closing, input, condition, first, hrest, hopening, hcondition, hclosing, hfirst,
    hbranch⟩ := condition_eq_ok hlexed hbranch
  obtain ⟨body, last, hbody, hlast, hbranch⟩ :=
    braced_eq_ok hstatement (hlexed.of_reaches hfirst) hbranch
  obtain ⟨rfl, rfl⟩ := pure_eq_ok_iff.mp hbranch
  exact ⟨hfirst.trans hlast, opening, closing, input, _, hrest, hopening, hcondition, hclosing,
    hbody⟩

theorem sound_elifsOf {statement : Parser Stmt}
    (hstatement : Sound statement Clause.statement.Derives) (bound : Nat) :
    Sound (elifsOf statement bound) Clause.elifs.Derives := by
  induction bound with
  | zero =>
    intro cursor final elifs _ helifs
    obtain ⟨rfl, rfl⟩ := pure_eq_ok_iff.mp helifs
    exact ⟨.refl cursor, .noElif⟩
  | succ bound ih =>
    intro cursor final elifs hlexed helifs
    rw [elifsOf, bind_eq_ok_iff] at helifs
    obtain ⟨result, first, haccept, helifs⟩ := helifs
    obtain ⟨rfl, rfl⟩ | ⟨token, rfl, hrest, htoken, hfirst⟩ := accept_cases haccept
    · obtain ⟨rfl, rfl⟩ := pure_eq_ok_iff.mp helifs
      exact ⟨.refl first, .noElif⟩
    · dsimp only at helifs
      rw [bind_eq_ok_iff] at helifs
      obtain ⟨branch, second, hbranch, helifs⟩ := helifs
      obtain ⟨hsecond, opening, closing, input, middle, hfirstRest, hopening, hcondition, hclosing,
        hbody⟩ := branchOf_eq_ok hstatement (hlexed.of_reaches hfirst) hbranch
      rw [bind_eq_ok_iff] at helifs
      obtain ⟨others, last, hothers, helifs⟩ := helifs
      obtain ⟨rfl, rfl⟩ := pure_eq_ok_iff.mp helifs
      have hreaches := hfirst.trans hsecond
      obtain ⟨hlast, hothers⟩ := ih (hlexed.of_reaches hreaches) hothers
      rw [hrest, hfirstRest]
      exact ⟨hreaches.trans hlast, .elif htoken hopening hcondition hclosing hbody hothers⟩

theorem sound_otherwiseOf {statement : Parser Stmt}
    (hstatement : Sound statement Clause.statement.Derives) :
    Sound (otherwiseOf statement) Clause.otherwise.Derives := by
  intro cursor final otherwise hlexed hotherwise
  rw [otherwiseOf, bind_eq_ok_iff] at hotherwise
  obtain ⟨result, first, haccept, hotherwise⟩ := hotherwise
  obtain ⟨rfl, rfl⟩ | ⟨token, rfl, hrest, htoken, hfirst⟩ := accept_cases haccept
  · obtain ⟨rfl, rfl⟩ := pure_eq_ok_iff.mp hotherwise
    exact ⟨.refl first, .noOtherwise⟩
  · dsimp only at hotherwise
    obtain ⟨body, last, hbody, hlast, hotherwise⟩ :=
      braced_eq_ok hstatement (hlexed.of_reaches hfirst) hotherwise
    obtain ⟨rfl, rfl⟩ := pure_eq_ok_iff.mp hotherwise
    rw [hrest]
    exact ⟨hfirst.trans hlast, .otherwise htoken hbody⟩

theorem sound_loopBodyOf {statement : Parser Stmt}
    (hstatement : Sound statement Clause.statement.Derives) :
    Sound (loopBodyOf statement) Clause.loopBody.Derives := by
  intro cursor final body hlexed hbody
  rw [loopBodyOf, bind_eq_ok_iff] at hbody
  obtain ⟨result, first, haccept, hbody⟩ := hbody
  obtain ⟨rfl, rfl⟩ | ⟨token, rfl, hrest, htoken, hfirst⟩ := accept_cases haccept
  · rw [Option.isSome_none, if_neg Bool.false_ne_true, bind_eq_ok_iff] at hbody
    obtain ⟨result, second, haccept, hbody⟩ := hbody
    obtain ⟨rfl, rfl⟩ | ⟨token, rfl, hrest, htoken, hsecond⟩ := accept_cases haccept
    · rw [Option.isSome_none, if_neg Bool.false_ne_true] at hbody
      obtain ⟨statements, last, hblock, hlast, hbody⟩ := braced_eq_ok hstatement hlexed hbody
      obtain ⟨rfl, rfl⟩ := pure_eq_ok_iff.mp hbody
      exact ⟨hlast, .loopBlock hblock⟩
    · rw [Option.isSome_some, if_pos rfl] at hbody
      obtain ⟨rfl, rfl⟩ := pure_eq_ok_iff.mp hbody
      exact ⟨hsecond, hrest ▸ .continueOnly htoken⟩
  · rw [Option.isSome_some, if_pos rfl] at hbody
    obtain ⟨rfl, rfl⟩ := pure_eq_ok_iff.mp hbody
    exact ⟨hfirst, hrest ▸ .breakOnly htoken⟩

section

-- A statement whose first token has been read: `first` stands just behind it.
variable {statement : Parser Stmt} {token : Token} {cursor first final : Cursor} {result : Stmt}

theorem loopOf_eq_ok (hstatement : Sound statement Clause.statement.Derives)
    (hlexed : cursor.Lexed) (hrest : cursor.rest = token :: first.rest)
    (hfirst : cursor.Reaches first) (htoken : token.kind = .keyword .nani)
    (hloop : loopOf statement token.span first = .ok result final) :
    cursor.Reaches final ∧ Clause.statement.Derives cursor.rest result final.rest := by
  rw [loopOf] at hloop
  obtain ⟨opening, closing, input, condition, second, hfirstRest, hopening, hcondition, hclosing,
    hsecond, hloop⟩ := condition_eq_ok (hlexed.of_reaches hfirst) hloop
  rw [bind_eq_ok_iff] at hloop
  obtain ⟨body, last, hbody, hloop⟩ := hloop
  obtain ⟨hlast, hbody⟩ :=
    sound_loopBodyOf hstatement (hlexed.of_reaches (hfirst.trans hsecond)) hbody
  have hfinal := hsecond.trans hlast
  rw [bind_of_eq_ok (spanFrom_of_reaches (hfirst.trans hfinal) hrest hfinal.suffix)] at hloop
  obtain ⟨rfl, rfl⟩ := pure_eq_ok_iff.mp hloop
  rw [hrest, hfirstRest]
  exact ⟨hfirst.trans hfinal, .loop htoken hopening hcondition hclosing hbody⟩

theorem conditionalOf_eq_ok (hstatement : Sound statement Clause.statement.Derives)
    (hlexed : cursor.Lexed) (hrest : cursor.rest = token :: first.rest)
    (hfirst : cursor.Reaches first) (htoken : token.kind = .keyword .nyan)
    (hconditional : conditionalOf statement token.span first = .ok result final) :
    cursor.Reaches final ∧ Clause.statement.Derives cursor.rest result final.rest := by
  rw [conditionalOf, bind_eq_ok_iff] at hconditional
  obtain ⟨⟨condition, body⟩, second, hbranch, hconditional⟩ := hconditional
  obtain ⟨hsecond, opening, closing, input, middle, hfirstRest, hopening, hcondition, hclosing,
    hbody⟩ := branchOf_eq_ok hstatement (hlexed.of_reaches hfirst) hbranch
  dsimp only at hconditional
  rw [bind_of_eq_ok (remaining_apply second), bind_eq_ok_iff] at hconditional
  obtain ⟨elifs, third, helifs, hconditional⟩ := hconditional
  have hlexedSecond := hlexed.of_reaches (hfirst.trans hsecond)
  obtain ⟨hthird, helifs⟩ := sound_elifsOf hstatement _ hlexedSecond helifs
  rw [bind_eq_ok_iff] at hconditional
  obtain ⟨otherwise, last, hotherwise, hconditional⟩ := hconditional
  obtain ⟨hlast, hotherwise⟩ :=
    sound_otherwiseOf hstatement (hlexedSecond.of_reaches hthird) hotherwise
  have hfinal := hsecond.trans (hthird.trans hlast)
  rw [bind_of_eq_ok (spanFrom_of_reaches (hfirst.trans hfinal) hrest hfinal.suffix)] at hconditional
  obtain ⟨rfl, rfl⟩ := pure_eq_ok_iff.mp hconditional
  rw [hrest, hfirstRest]
  exact ⟨hfirst.trans hfinal,
    .branch htoken hopening hcondition hclosing hbody helifs hotherwise⟩

theorem guardedOf_eq_ok (hstatement : Sound statement Clause.statement.Derives)
    (hlexed : cursor.Lexed) (hrest : cursor.rest = token :: first.rest)
    (hfirst : cursor.Reaches first) (htoken : token.kind = .keyword .ganbatte)
    (hguarded : guardedOf statement token.span first = .ok result final) :
    cursor.Reaches final ∧ Clause.statement.Derives cursor.rest result final.rest := by
  rw [guardedOf] at hguarded
  have hlexedFirst := hlexed.of_reaches hfirst
  obtain ⟨body, second, hbody, hsecond, hguarded⟩ := braced_eq_ok hstatement hlexedFirst hguarded
  rw [bind_eq_ok_iff] at hguarded
  obtain ⟨handlerToken, third, hexpect, hguarded⟩ := hguarded
  obtain ⟨hsecondRest, hhandlerToken, hthird⟩ := expect_eq_ok hexpect
  have hreaches := hsecond.trans hthird
  obtain ⟨handler, last, hhandler, hlast, hguarded⟩ :=
    braced_eq_ok hstatement (hlexedFirst.of_reaches hreaches) hguarded
  have hfinal := hreaches.trans hlast
  rw [bind_of_eq_ok (spanFrom_of_reaches (hfirst.trans hfinal) hrest hfinal.suffix)] at hguarded
  obtain ⟨rfl, rfl⟩ := pure_eq_ok_iff.mp hguarded
  rw [hsecondRest] at hbody
  rw [hrest]
  exact ⟨hfirst.trans hfinal, .guarded htoken hbody hhandlerToken hhandler⟩

theorem returnAt_eq_ok (hlexed : cursor.Lexed) (hrest : cursor.rest = token :: first.rest)
    (hfirst : cursor.Reaches first) (htoken : token.kind = .keyword .sayonara)
    (hreturn : returnAt token.span first = .ok result final) :
    cursor.Reaches final ∧ Clause.statement.Derives cursor.rest result final.rest := by
  have hstop := (hlexed.of_reaches hfirst).stop_kind
  rw [returnAt, bind_of_eq_ok (get_apply first)] at hreturn
  split at hreturn
  · next hvalue =>
    rw [Cursor.atReturnValue_iff hstop] at hvalue
    exact sound_node sound_expression hlexed hrest hfirst hreturn (.returnValue htoken hvalue)
  · next hvalue =>
    rw [Cursor.atReturnValue_iff hstop] at hvalue
    obtain ⟨rfl, rfl⟩ := pure_eq_ok_iff.mp hreturn
    exact ⟨hfirst, hrest ▸ .returnNothing htoken hvalue⟩

theorem nameStatement_eq_ok (hlexed : cursor.Lexed) (hrest : cursor.rest = token :: first.rest)
    (hfirst : cursor.Reaches first) (htoken : token.kind = .identifier)
    (hname : nameStatement token first = .ok result final) :
    cursor.Reaches final ∧ Clause.statement.Derives cursor.rest result final.rest := by
  rw [nameStatement, bind_eq_ok_iff] at hname
  obtain ⟨found, second, haccept, hname⟩ := hname
  obtain ⟨rfl, rfl⟩ | ⟨sign, rfl, hfirstRest, hsign, hsecond⟩ := accept_cases haccept
  · rw [Option.isSome_none, if_neg Bool.false_ne_true, bind_eq_ok_iff] at hname
    obtain ⟨found, third, htake, hname⟩ := hname
    obtain ⟨rfl, rfl, _⟩ | ⟨sign, op, rfl, hsecondRest, hop, hthird⟩ := takeIf_cases htake
    · dsimp only at hname
      rw [bind_of_eq_ok (sees_apply _ third)] at hname
      split at hname
      · exact sound_node (sound_arguments _) hlexed hrest hfirst hname (.call htoken)
      · exact absurd hname unmet_ne_ok
    · dsimp only at hname
      rw [bind_of_eq_ok (spanFrom_of_reaches (hfirst.trans hthird) hrest hthird.suffix)] at hname
      obtain ⟨rfl, rfl⟩ := pure_eq_ok_iff.mp hname
      refine ⟨hfirst.trans hthird, ?_⟩
      rw [hrest, hsecondRest]
      unfold updateOp at hop
      split at hop
      · next hsign =>
        cases hop
        exact .increment htoken hsign
      · next hsign =>
        cases hop
        exact .decrement htoken hsign
      · cases hop
  · rw [Option.isSome_some, if_pos rfl, bind_eq_ok_iff] at hname
    obtain ⟨value, last, hvalue, hname⟩ := hname
    obtain ⟨rfl, rfl⟩ := pure_eq_ok_iff.mp hname
    have hreaches := hfirst.trans hsecond
    obtain ⟨hlast, hvalue⟩ := sound_expression (hlexed.of_reaches hreaches) hvalue
    rw [hrest, hfirstRest]
    exact ⟨hreaches.trans hlast, .assign htoken hsign hvalue⟩

theorem statementFrom_eq_ok (hstatement : Sound statement Clause.statement.Derives)
    (hlexed : cursor.Lexed) (hrest : cursor.rest = token :: first.rest)
    (hfirst : cursor.Reaches first) (hfrom : statementFrom statement token first = .ok result final) :
    cursor.Reaches final ∧ Clause.statement.Derives cursor.rest result final.rest := by
  rw [statementFrom] at hfrom
  cases hkind : token.kind with
  | keyword keyword =>
    cases keyword <;> simp only [hkind] at hfrom
    case pasu =>
      obtain ⟨rfl, rfl⟩ := pure_eq_ok_iff.mp hfrom
      exact ⟨hfirst, hrest ▸ .pass hkind⟩
    case yamete =>
      obtain ⟨rfl, rfl⟩ := pure_eq_ok_iff.mp hfrom
      exact ⟨hfirst, hrest ▸ .breakLoop hkind⟩
    case motto =>
      obtain ⟨rfl, rfl⟩ := pure_eq_ok_iff.mp hfrom
      exact ⟨hfirst, hrest ▸ .continueLoop hkind⟩
    case sayonara => exact returnAt_eq_ok hlexed hrest hfirst hkind hfrom
    case nani => exact loopOf_eq_ok hstatement hlexed hrest hfirst hkind hfrom
    case nyan => exact conditionalOf_eq_ok hstatement hlexed hrest hfirst hkind hfrom
    case ganbatte => exact guardedOf_eq_ok hstatement hlexed hrest hfirst hkind hfrom
    case purinto =>
      exact sound_node (sound_arguments _) hlexed hrest hfirst hfrom (.print hkind)
    case ohayo => exact sound_node sound_prompt hlexed hrest hfirst hfrom (.input hkind)
    all_goals exact absurd hfrom refuse_ne_ok
  | identifier =>
    simp only [hkind] at hfrom
    exact nameStatement_eq_ok hlexed hrest hfirst hkind hfrom
  | _ =>
    simp only [hkind] at hfrom
    exact absurd hfrom refuse_ne_ok

end

theorem sound_nestedStatement (bound : Nat) :
    Sound (nestedStatement bound) Clause.statement.Derives := by
  induction bound with
  | zero =>
    intro cursor final result _ hstatement
    exact absurd hstatement unmet_ne_ok
  | succ bound ih =>
    intro cursor final result hlexed hstatement
    rw [nestedStatement, bind_eq_ok_iff] at hstatement
    obtain ⟨found, first, htake, hstatement⟩ := hstatement
    obtain ⟨rfl, rfl, _⟩ | ⟨token, _, rfl, hrest, hfound, hfirst⟩ := takeIf_cases htake
    · exact absurd hstatement unmet_ne_ok
    · cases hfound
      exact statementFrom_eq_ok ih hlexed hrest hfirst hstatement

theorem sound_statement : Sound statement Clause.statement.Derives := by
  intro cursor final result hlexed hstatement
  rw [statement, bind_of_eq_ok (remaining_apply cursor)] at hstatement
  exact sound_nestedStatement _ hlexed hstatement

end Parser
end KawaiiLang
