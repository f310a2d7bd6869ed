import KawaiiLang.Proofs.Parse.Complete.Expression
import KawaiiLang.Proofs.Parse.Sound.Statement

namespace KawaiiLang

open Grammar (Phrase Clause)

namespace Grammar.Clause

/-- The kinds of tokens behind a clause that are not read as a part of it. -/
def Ends : Clause → Token.Kind → Prop
  | statement, kind => kind = .symbol .semicolon ∨ kind = .symbol .rightBrace ∨
      kind = .keyword .kawaii ∨ kind = .keyword .uWuNyaa ∨ kind.startsStatement = true
  | body, kind => kind = .symbol .rightBrace
  | block, _ | loopBody, _ => True
  | elifs, kind => kind ≠ .keyword .nyanyan
  | otherwise, kind => kind ≠ .keyword .baka

/-- The clause ends in front of `rest`. -/
def EndsAt (clause : Clause) (rest : List Token) : Prop :=
  ∀ token ∈ rest.head?, clause.Ends token.kind

theorem EndsAt.of_ends {clause : Clause} {token : Token} (hends : clause.Ends token.kind)
    (rest : List Token) : clause.EndsAt (token :: rest) := by
  simpa [EndsAt] using hends

theorem EndsAt.of_semicolon {semicolon : Token} (hsemicolon : semicolon.kind = .symbol .semicolon)
    (rest : List Token) : statement.EndsAt (semicolon :: rest) := by
  have hends : statement.Ends semicolon.kind := .inl hsemicolon
  exact .of_ends hends rest

theorem EndsAt.of_closing {closing : Token} (hclosing : closing.kind = .symbol .rightBrace)
    (rest : List Token) : body.EndsAt (closing :: rest) := by
  have hends : body.Ends closing.kind := hclosing
  exact .of_ends hends rest

/-- The tokens are those behind a statement and the semicolon that may follow it. -/
structure Onward (after : List Token) : Prop where
  endsAt : statement.EndsAt after
  not_semicolon : ∀ next ∈ after.head?, next.kind ≠ .symbol .semicolon

/-- Nothing that follows a statement could be read as a part of it. -/
theorem Ends.not_part {kind : Token.Kind} (hends : statement.Ends kind) :
    Phrase.expression.Ends kind ∧ kind ≠ .keyword .nyanyan ∧ kind ≠ .keyword .baka := by
  obtain rfl | rfl | rfl | rfl | hstart := hends
  iterate 4 exact ⟨⟨rfl, rfl, rfl, nofun⟩, nofun, nofun⟩
  unfold Token.Kind.startsStatement at hstart
  split at hstart
  all_goals first
    | exact ⟨⟨rfl, rfl, rfl, nofun⟩, nofun, nofun⟩
    | cases hstart

theorem Derives.exists_start {input rest : List Token} {result : Stmt}
    (hstatement : statement.Derives input result rest) :
    ∃ token more, input = token :: more ∧ token.kind.startsStatement = true ∧ rest <:+ more := by
  cases hstatement with
  | pass htoken | breakLoop htoken | continueLoop htoken | returnNothing htoken =>
    exact ⟨_, _, rfl, by rw [htoken]; rfl, List.suffix_refl _⟩
  | returnValue htoken _ hpart | call htoken hpart | print htoken hpart | input htoken hpart =>
    exact ⟨_, _, rfl, by rw [htoken]; rfl, hpart.suffix⟩
  | assign htoken _ hvalue =>
    exact ⟨_, _, rfl, by rw [htoken]; rfl, hvalue.suffix.trans (List.suffix_cons _ _)⟩
  | increment htoken | decrement htoken =>
    exact ⟨_, _, rfl, by rw [htoken]; rfl, List.suffix_cons _ _⟩
  | loop htoken _ hcondition _ hbody =>
    have hpast := (List.suffix_cons _ _).trans hcondition.suffix
    exact ⟨_, _, rfl, by rw [htoken]; rfl, (hbody.suffix.trans hpast).trans (List.suffix_cons _ _)⟩
  | branch htoken _ hcondition _ hbody helifs hotherwise =>
    have hpast := (List.suffix_cons _ _).trans hcondition.suffix
    have hrest := hotherwise.suffix.trans (helifs.suffix.trans (hbody.suffix.trans hpast))
    exact ⟨_, _, rfl, by rw [htoken]; rfl, hrest.trans (List.suffix_cons _ _)⟩
  | guarded htoken hbody _ hhandler =>
    have hpast := (List.suffix_cons _ _).trans hbody.suffix
    exact ⟨_, _, rfl, by rw [htoken]; rfl, hhandler.suffix.trans hpast⟩

/-- A statement takes at least one token. -/
theorem Derives.length_lt {input rest : List Token} {result : Stmt}
    (hstatement : statement.Derives input result rest) : rest.length < input.length := by
  obtain ⟨token, more, rfl, _, hrest⟩ := hstatement.exists_start
  exact Nat.lt_succ_of_le hrest.length_le

/-- A body begins with a statement, or it is empty. -/
theorem Derives.body_head {input rest : List Token} {statements : List Stmt}
    (hbody : body.Derives input statements rest) (hend : body.EndsAt rest) :
    ∀ token ∈ input.head?, token.kind.startsStatement = true ∨ token.kind = .symbol .rightBrace := by
  intro token htoken
  cases hbody with
  | empty => exact .inr (hend token htoken)
  | plain hfirst | terminated hfirst =>
    obtain ⟨first, more, rfl, hstart, _⟩ := hfirst.exists_start
    cases htoken
    exact .inl hstart

/-- The next statement or the closing brace extends no statement in front of it. -/
theorem Derives.onward {input rest : List Token} {statements : List Stmt}
    (hbody : body.Derives input statements rest) (hend : body.EndsAt rest) : Onward input := by
  have hhead := hbody.body_head hend
  refine ⟨fun token htoken => ?_, fun next hnext hkind => ?_⟩
  · exact (hhead token htoken).elim (.inr ∘ .inr ∘ .inr ∘ .inr) (.inr ∘ .inl)
  · have hnone := hhead next hnext
    simp [hkind, Token.Kind.startsStatement] at hnone

/-- Behind the conditions of a conditional stands no further one. -/
theorem Derives.elifs_endsAt {input rest : List Token} {body : Option (List Stmt)}
    (hotherwise : Clause.otherwise.Derives input body rest) (hend : statement.EndsAt rest) :
    elifs.EndsAt input := by
  cases hotherwise with
  | noOtherwise => exact fun token htoken => (hend token htoken).not_part.2.1
  | otherwise htoken =>
    refine .of_ends ?_ _
    rw [htoken]
    nofun

end Grammar.Clause

namespace Parser

/-- `statement` reads every statement of at most `bound` tokens that the grammar derives
    at or behind the cursor, provided that it ends where the derivation does. -/
def Completes (statement : Parser Stmt) (cursor : Cursor) (bound : Nat) : Prop :=
  ∀ {input rest : List Token} {result : Stmt}, Clause.statement.Derives input result rest →
    Clause.statement.EndsAt rest → input <:+ cursor.rest → input.length ≤ bound →
      statement (cursor.movedTo input) = .ok result (cursor.movedTo rest)

theorem seesStatement_movedTo {cursor : Cursor} {input rest : List Token} {first : Stmt}
    (hfirst : Clause.statement.Derives input first rest) :
    seesStatement (cursor.movedTo input) = .ok true (cursor.movedTo input) := by
  obtain ⟨token, more, rfl, hstart, _⟩ := hfirst.exists_start
  rw [seesStatement_apply]
  exact congrArg (EStateM.Result.ok · _) hstart

theorem terminated_movedTo_plain {statement : Parser Stmt} {cursor : Cursor}
    {input rest : List Token} {first : Stmt}
    (hfirst : statement (cursor.movedTo input) = .ok first (cursor.movedTo rest))
    (hrest : ∀ token ∈ rest.head?, token.kind ≠ .symbol .semicolon) :
    terminated statement (cursor.movedTo input) = .ok first (cursor.movedTo rest) := by
  rw [terminated, bind_of_eq_ok hfirst, bind_of_eq_ok (accept_of_kind_ne hrest)]
  rfl

theorem terminated_movedTo_semicolon {statement : Parser Stmt} {cursor : Cursor}
    {semicolon : Token} {input rest : List Token} {first : Stmt}
    (hinput : semicolon :: rest <:+ cursor.rest)
    (hfirst : statement (cursor.movedTo input) = .ok first (cursor.movedTo (semicolon :: rest)))
    (hsemicolon : semicolon.kind = .symbol .semicolon) :
    terminated statement (cursor.movedTo input) = .ok first (cursor.movedTo rest) := by
  rw [terminated, bind_of_eq_ok hfirst, bind_of_eq_ok (accept_movedTo hinput hsemicolon)]
  rfl

/-- A condition with its parentheses is in front of what depends on it. -/
theorem condition_suffix (opening : Token) {closing : Token} {input middle : List Token}
    {condition : Expr} (hcondition : Phrase.expression.Derives input condition (closing :: middle)) :
    middle <:+ opening :: input :=
  ((List.suffix_cons _ _).trans hcondition.suffix).trans (List.suffix_cons _ _)

theorem condition_movedTo {cursor : Cursor} {opening closing : Token} {input middle : List Token}
    {condition : Expr} {α : Type} {openExpectation closeExpectation : Expectation}
    {next : Expr → Parser α} (hinput : opening :: input <:+ cursor.rest)
    (hopening : opening.kind = .symbol .leftParen)
    (hcondition : Phrase.expression.Derives input condition (closing :: middle))
    (hclosing : closing.kind = .symbol .rightParen) :
    (do
      let _ ← expect (.symbol .leftParen) openExpectation
      let condition ← expression
      let _ ← expect (.symbol .rightParen) closeExpectation
      next condition) (cursor.movedTo (opening :: input)) =
    next condition (cursor.movedTo middle) := by
  have hpast := (List.suffix_cons _ _).trans hinput
  have hend := Phrase.EndsAt.of_ends (Phrase.expression_ends (.inl hclosing)) middle
  rw [bind_of_eq_ok (expect_movedTo hinput hopening),
    bind_of_eq_ok (expression_movedTo hpast hcondition hend),
    bind_of_eq_ok (expect_movedTo (hcondition.suffix.trans hpast) hclosing)]

section

variable {statement : Parser Stmt} {cursor : Cursor} {bound : Nat}

theorem sequence_movedTo (hstatement : Completes statement cursor bound)
    (hstop : cursor.stop.kind = .endOfInput) {input rest : List Token} {body : List Stmt}
    (hbody : Clause.body.Derives input body rest) (hend : Clause.body.EndsAt rest)
    (hinput : input <:+ cursor.rest) (hbound : input.length ≤ bound) {length : Nat}
    (hlength : input.length ≤ length) :
    sequence statement length (cursor.movedTo input) = .ok body (cursor.movedTo rest) := by
  induction length generalizing input body with
  | zero =>
    cases hbody with
    | empty => rfl
    | plain hfirst | terminated hfirst =>
      have hshorter := hfirst.length_lt
      omega
  | succ length ih =>
    cases hbody with
    | empty =>
      have hsees : (cursor.movedTo rest).current.kind.startsStatement = false := by
        cases rest with
        | nil => simp [Cursor.current, Cursor.movedTo, hstop, Token.Kind.startsStatement]
        | cons token more =>
          have hbrace : token.kind = .symbol .rightBrace := hend token rfl
          simp [Cursor.current, hbrace, Token.Kind.startsStatement]
      rw [sequence, bind_of_eq_ok (seesStatement_apply _), hsees, if_neg Bool.false_ne_true]
      rfl
    | @plain _ middle _ _ _ hfirst hothers =>
      have hnext := hothers.onward hend
      have hshorter := hfirst.length_lt
      have hreadFirst := hstatement hfirst hnext.endsAt hinput hbound
      have hreadOthers := ih hothers (hfirst.suffix.trans hinput) (by omega) (by omega)
      rw [sequence, bind_of_eq_ok (seesStatement_movedTo hfirst), if_pos rfl,
        bind_of_eq_ok (terminated_movedTo_plain hreadFirst hnext.not_semicolon),
        bind_of_eq_ok hreadOthers]
      rfl
    | terminated hfirst hsemicolon hothers =>
      have hmiddle := hfirst.suffix.trans hinput
      have hpast := (List.suffix_cons _ _).trans hmiddle
      have hshorter := hfirst.length_lt
      rw [List.length_cons] at hshorter
      have hreadFirst := hstatement hfirst (.of_semicolon hsemicolon _) hinput hbound
      have hreadOthers := ih hothers hpast (by omega) (by omega)
      rw [sequence, bind_of_eq_ok (seesStatement_movedTo hfirst), if_pos rfl,
        bind_of_eq_ok (terminated_movedTo_semicolon hmiddle hreadFirst hsemicolon),
        bind_of_eq_ok hreadOthers]
      rfl

/-- A block is read, once the brace that opens it has been. -/
theorem blockOf_movedTo (hstatement : Completes statement cursor bound)
    (hstop : cursor.stop.kind = .endOfInput) {input rest : List Token} {body : List Stmt}
    (hblock : Clause.block.Derives input body rest) (hinput : input <:+ cursor.rest)
    (hbound : input.length ≤ bound) :
    ∃ opening more, input = opening :: more ∧ opening.kind = .symbol .leftBrace ∧
      blockOf statement (cursor.movedTo more) = .ok body (cursor.movedTo rest) := by
  cases hblock with
  | @block opening closing more _ _ hopening hbody hclosing =>
    refine ⟨opening, more, rfl, hopening, ?_⟩
    have hpast := (List.suffix_cons _ _).trans hinput
    have hbodyEnd : Clause.body.Ends closing.kind := hclosing
    have hread := sequence_movedTo hstatement hstop hbody (.of_ends hbodyEnd _) hpast
      (Nat.le_of_succ_le hbound) (Nat.le_refl _)
    rw [blockOf, bodyOf, bind_assoc, bind_of_eq_ok (remaining_apply _), Cursor.rest_movedTo,
      bind_of_eq_ok hread, bind_of_eq_ok (expect_movedTo (hbody.suffix.trans hpast) hclosing)]
    rfl

theorem braced_movedTo (hstatement : Completes statement cursor bound)
    (hstop : cursor.stop.kind = .endOfInput) {α : Type} {expectation : Expectation}
    {next : List Stmt → Parser α} {input rest : List Token} {body : List Stmt}
    (hblock : Clause.block.Derives input body rest) (hinput : input <:+ cursor.rest)
    (hbound : input.length ≤ bound) :
    (do
      let _ ← expect (.symbol .leftBrace) expectation
      let body ← blockOf statement
      next body) (cursor.movedTo input) = next body (cursor.movedTo rest) := by
  obtain ⟨opening, more, rfl, hopening, hread⟩ :=
    blockOf_movedTo hstatement hstop hblock hinput hbound
  rw [bind_of_eq_ok (expect_movedTo hinput hopening), bind_of_eq_ok hread]

theorem branchOf_movedTo (hstatement : Completes statement cursor bound)
    (hstop : cursor.stop.kind = .endOfInput) (keyword : Keyword) {opening closing : Token}
    {input middle rest : List Token} {condition : Expr} {body : List Stmt}
    (hinput : opening :: input <:+ cursor.rest) (hopening : opening.kind = .symbol .leftParen)
    (hcondition : Phrase.expression.Derives input condition (closing :: middle))
    (hclosing : closing.kind = .symbol .rightParen)
    (hblock : Clause.block.Derives middle body rest) (hbound : middle.length ≤ bound) :
    branchOf statement keyword (cursor.movedTo (opening :: input)) =
      .ok (condition, body) (cursor.movedTo rest) := by
  have hmiddle := (condition_suffix opening hcondition).trans hinput
  rw [branchOf, condition_movedTo hinput hopening hcondition hclosing,
    braced_movedTo hstatement hstop hblock hmiddle hbound]
  rfl

theorem elifsOf_movedTo (hstatement : Completes statement cursor bound)
    (hstop : cursor.stop.kind = .endOfInput) {input rest : List Token}
    {elifs : List (Expr × List Stmt)} (helifs : Clause.elifs.Derives input elifs rest)
    (hend : Clause.elifs.EndsAt rest) (hinput : input <:+ cursor.rest)
    (hbound : input.length ≤ bound) {length : Nat} (hlength : input.length ≤ length) :
    elifsOf statement length (cursor.movedTo input) = .ok elifs (cursor.movedTo rest) := by
  induction length generalizing input elifs with
  | zero =>
    cases helifs with
    | noElif => rfl
    | elif => simp at hlength
  | succ length ih =>
    cases helifs with
    | noElif =>
      have hnone : ∀ token ∈ rest.head?, token.kind ≠ .keyword .nyanyan := hend
      rw [elifsOf, bind_of_eq_ok (accept_of_kind_ne hnone)]
      rfl
    | @elif token opening _ _ first second _ _ _ _ htoken hopening hcondition hclosing hbody hothers =>
      have hpast := (List.suffix_cons _ _).trans hinput
      have hfirst := condition_suffix opening hcondition
      have hsecond := hbody.suffix.trans hfirst
      have hfirstLength := hfirst.length_le
      have hsecondLength := hsecond.length_le
      simp only [List.length_cons] at hbound hlength hfirstLength hsecondLength
      have hreadBody := branchOf_movedTo hstatement hstop .nyanyan hpast hopening
        hcondition hclosing hbody (by omega)
      have hreadOthers := ih hothers (hsecond.trans hpast) (by omega) (by omega)
      rw [elifsOf, bind_of_eq_ok (accept_movedTo hinput htoken)]
      dsimp only
      rw [bind_of_eq_ok hreadBody, bind_of_eq_ok hreadOthers]
      rfl

theorem otherwiseOf_movedTo (hstatement : Completes statement cursor bound)
    (hstop : cursor.stop.kind = .endOfInput) {input rest : List Token}
    {otherwise : Option (List Stmt)} (hotherwise : Clause.otherwise.Derives input otherwise rest)
    (hend : Clause.otherwise.EndsAt rest) (hinput : input <:+ cursor.rest)
    (hbound : input.length ≤ bound) :
    otherwiseOf statement (cursor.movedTo input) = .ok otherwise (cursor.movedTo rest) := by
  cases hotherwise with
  | noOtherwise =>
    have hnone : ∀ token ∈ input.head?, token.kind ≠ .keyword .baka := hend
    rw [otherwiseOf, bind_of_eq_ok (accept_of_kind_ne hnone)]
    rfl
  | otherwise htoken hbody =>
    have hpast := (List.suffix_cons _ _).trans hinput
    rw [otherwiseOf, bind_of_eq_ok (accept_movedTo hinput htoken)]
    dsimp only
    rw [braced_movedTo hstatement hstop hbody hpast (Nat.le_of_succ_le hbound)]
    rfl

theorem loopBodyOf_movedTo (hstatement : Completes statement cursor bound)
    (hstop : cursor.stop.kind = .endOfInput) {input rest : List Token} {body : LoopBody}
    (hbody : Clause.loopBody.Derives input body rest) (hinput : input <:+ cursor.rest)
    (hbound : input.length ≤ bound) :
    loopBodyOf statement (cursor.movedTo input) = .ok body (cursor.movedTo rest) := by
  cases hbody with
  | breakOnly htoken =>
    rw [loopBodyOf, bind_of_eq_ok (accept_movedTo hinput htoken), Option.isSome_some, if_pos rfl]
    rfl
  | continueOnly htoken =>
    rw [loopBodyOf, bind_of_eq_ok (accept_of_kind_ne (by simp [htoken])), Option.isSome_none,
      if_neg Bool.false_ne_true, bind_of_eq_ok (accept_movedTo hinput htoken), Option.isSome_some,
      if_pos rfl]
    rfl
  | loopBlock hblock =>
    obtain ⟨opening, more, rfl, hopening, hread⟩ :=
      blockOf_movedTo hstatement hstop hblock hinput hbound
    rw [loopBodyOf, bind_of_eq_ok (accept_of_kind_ne (by simp [hopening])), Option.isSome_none,
      if_neg Bool.false_ne_true, bind_of_eq_ok (accept_of_kind_ne (by simp [hopening])),
      Option.isSome_none, if_neg Bool.false_ne_true,
      bind_of_eq_ok (expect_movedTo hinput hopening), bind_of_eq_ok hread]
    rfl

theorem returnAt_movedTo_value {token : Token} {input rest : List Token} {value : Expr}
    (hstop : cursor.stop.kind = .endOfInput) (hinput : token :: input <:+ cursor.rest)
    (htakes : Grammar.TakesValue input) (hvalue : Phrase.expression.Derives input value rest)
    (hend : Phrase.expression.EndsAt rest) :
    returnAt token.span (cursor.movedTo input) =
      .ok (.returnWith (some value) (Grammar.spanOf token input rest)) (cursor.movedTo rest) := by
  have hpast := (List.suffix_cons _ _).trans hinput
  have hmoved : (cursor.movedTo input).stop.kind = .endOfInput := hstop
  have hreturn : (cursor.movedTo input).atReturnValue = true :=
    (Cursor.atReturnValue_iff hmoved).mpr htakes
  rw [returnAt, bind_of_eq_ok (get_apply _), if_pos hreturn,
    bind_of_eq_ok (expression_movedTo hpast hvalue hend),
    bind_of_eq_ok (spanFrom_movedTo hinput hvalue.suffix)]
  rfl

theorem returnAt_movedTo_nothing {token : Token} {rest : List Token}
    (hstop : cursor.stop.kind = .endOfInput) (htakes : ¬ Grammar.TakesValue rest) :
    returnAt token.span (cursor.movedTo rest) =
      .ok (.returnWith none token.span) (cursor.movedTo rest) := by
  have hmoved : (cursor.movedTo rest).stop.kind = .endOfInput := hstop
  have hreturn : ¬ (cursor.movedTo rest).atReturnValue = true :=
    fun hreturn => htakes ((Cursor.atReturnValue_iff hmoved).mp hreturn)
  rw [returnAt, bind_of_eq_ok (get_apply _), if_neg hreturn]
  rfl

theorem nameStatement_movedTo_assign {token sign : Token} {input rest : List Token} {value : Expr}
    (hinput : sign :: input <:+ cursor.rest) (hsign : sign.kind = .keyword .asain)
    (hvalue : Phrase.expression.Derives input value rest) (hend : Phrase.expression.EndsAt rest) :
    nameStatement token (cursor.movedTo (sign :: input)) =
      .ok (.assign token.lexeme value (token.span.through value.span)) (cursor.movedTo rest) := by
  have hpast := (List.suffix_cons _ _).trans hinput
  rw [nameStatement, bind_of_eq_ok (accept_movedTo hinput hsign), Option.isSome_some, if_pos rfl,
    bind_of_eq_ok (expression_movedTo hpast hvalue hend)]
  rfl

theorem nameStatement_movedTo_update {token sign : Token} {rest : List Token} {op : UpdateOp}
    (hinput : token :: sign :: rest <:+ cursor.rest) (hop : updateOp sign.kind = some op) :
    nameStatement token (cursor.movedTo (sign :: rest)) =
      .ok (.update token.lexeme op (Grammar.spanOf token (sign :: rest) rest))
        (cursor.movedTo rest) := by
  have hpast := (List.suffix_cons _ _).trans hinput
  have hassign : ∀ next ∈ (sign :: rest).head?, next.kind ≠ .keyword .asain := by
    rintro next hnext hkind
    cases hnext
    rw [hkind] at hop
    cases hop
  rw [nameStatement, bind_of_eq_ok (accept_of_kind_ne hassign), Option.isSome_none,
    if_neg Bool.false_ne_true, bind_of_eq_ok (takeIf_movedTo hpast hop)]
  dsimp only
  rw [bind_of_eq_ok (spanFrom_movedTo hinput (List.suffix_cons _ _))]
  rfl

theorem nameStatement_movedTo_call {token : Token} {input rest : List Token} {args : List Expr}
    (hinput : token :: input <:+ cursor.rest) (hargs : Phrase.arguments.Derives input args rest) :
    nameStatement token (cursor.movedTo input) =
      .ok (.call token.lexeme args (Grammar.spanOf token input rest)) (cursor.movedTo rest) := by
  have hpast := (List.suffix_cons _ _).trans hinput
  obtain ⟨opening, more, hopen, hopening⟩ := hargs.exists_opening
  have hassign : ∀ next ∈ input.head?, next.kind ≠ .keyword .asain := by
    simp [hopen, hopening]
  have hupdate : ∀ next ∈ input.head?, updateOp next.kind = none := by
    simp [hopen, hopening, updateOp]
  rw [nameStatement, bind_of_eq_ok (accept_of_kind_ne hassign), Option.isSome_none,
    if_neg Bool.false_ne_true, bind_of_eq_ok (takeIf_of_eq_none hupdate)]
  dsimp only
  rw [bind_of_eq_ok (sees_of_kind_eq hopen hopening), if_pos rfl,
    bind_of_eq_ok (arguments_movedTo hpast hargs _),
    bind_of_eq_ok (spanFrom_movedTo hinput hargs.suffix)]
  rfl

/-- What follows the first token of a statement is read as the grammar has it, if the
    statements inside it are. -/
theorem statementFrom_movedTo (hnested : Completes statement cursor bound)
    (hstop : cursor.stop.kind = .endOfInput) {token : Token} {input rest : List Token}
    {result : Stmt} (hstatement : Clause.statement.Derives (token :: input) result rest)
    (hend : Clause.statement.EndsAt rest) (hinput : token :: input <:+ cursor.rest)
    (hbound : input.length ≤ bound) :
    statementFrom statement token (cursor.movedTo input) = .ok result (cursor.movedTo rest) := by
  have hpast := (List.suffix_cons _ _).trans hinput
  have hvalueEnd : Phrase.expression.EndsAt rest :=
    fun token htoken => (hend token htoken).not_part.1
  rw [statementFrom]
  cases hstatement with
  | pass htoken | breakLoop htoken | continueLoop htoken =>
    simp only [htoken]
    rfl
  | returnValue htoken htakes hvalue =>
    simp only [htoken]
    exact returnAt_movedTo_value hstop hinput htakes hvalue hvalueEnd
  | returnNothing htoken htakes =>
    simp only [htoken]
    exact returnAt_movedTo_nothing hstop htakes
  | assign htoken hsign hvalue =>
    simp only [htoken]
    exact nameStatement_movedTo_assign hpast hsign hvalue hvalueEnd
  | increment htoken hsign | decrement htoken hsign =>
    simp only [htoken]
    exact nameStatement_movedTo_update hinput (by rw [hsign]; rfl)
  | call htoken hargs =>
    simp only [htoken]
    exact nameStatement_movedTo_call hinput hargs
  | print htoken hargs =>
    simp only [htoken]
    rw [bind_of_eq_ok (arguments_movedTo hpast hargs _),
      bind_of_eq_ok (spanFrom_movedTo hinput hargs.suffix)]
    rfl
  | input htoken htext =>
    simp only [htoken]
    rw [bind_of_eq_ok (prompt_movedTo hpast htext),
      bind_of_eq_ok (spanFrom_movedTo hinput htext.suffix)]
    rfl
  | @loop _ opening _ _ _ _ _ _ htoken hopening hcondition hclosing hbody =>
    have hmiddle := condition_suffix opening hcondition
    have hread := loopBodyOf_movedTo hnested hstop hbody (hmiddle.trans hpast)
      (Nat.le_trans hmiddle.length_le hbound)
    simp only [htoken]
    rw [loopOf, condition_movedTo hpast hopening hcondition hclosing, bind_of_eq_ok hread,
      bind_of_eq_ok (spanFrom_movedTo hinput (hbody.suffix.trans hmiddle))]
    rfl
  | @branch _ opening _ _ _ _ _ _ _ _ _ _ htoken hopening hcondition hclosing hbody helifs
      hotherwise =>
    have hfirst := condition_suffix opening hcondition
    have hsecond := hbody.suffix.trans hfirst
    have hthird := helifs.suffix.trans hsecond
    have hreadBody := branchOf_movedTo hnested hstop .nyan hpast hopening hcondition hclosing
      hbody (Nat.le_trans hfirst.length_le hbound)
    have hreadElifs := elifsOf_movedTo hnested hstop helifs (hotherwise.elifs_endsAt hend)
      (hsecond.trans hpast) (Nat.le_trans hsecond.length_le hbound) (Nat.le_refl _)
    have hreadOtherwise := otherwiseOf_movedTo hnested hstop hotherwise
      (fun token htoken => (hend token htoken).not_part.2.2) (hthird.trans hpast)
      (Nat.le_trans hthird.length_le hbound)
    simp only [htoken]
    rw [conditionalOf, bind_of_eq_ok hreadBody]
    dsimp only
    rw [bind_of_eq_ok (remaining_apply _), Cursor.rest_movedTo, bind_of_eq_ok hreadElifs,
      bind_of_eq_ok hreadOtherwise,
      bind_of_eq_ok (spanFrom_movedTo hinput (hotherwise.suffix.trans hthird))]
    rfl
  | guarded htoken hbody hhandlerToken hhandler =>
    have hmiddle := (List.suffix_cons _ _).trans hbody.suffix
    simp only [htoken]
    rw [guardedOf, braced_movedTo hnested hstop hbody hpast hbound,
      bind_of_eq_ok (expect_movedTo (hbody.suffix.trans hpast) hhandlerToken),
      braced_movedTo hnested hstop hhandler (hmiddle.trans hpast)
        (Nat.le_trans hmiddle.length_le hbound),
      bind_of_eq_ok (spanFrom_movedTo hinput (hhandler.suffix.trans hmiddle))]
    rfl

end

/-- The bound on the nesting suffices, as every level takes a token. -/
theorem nestedStatement_completes {cursor : Cursor} (hstop : cursor.stop.kind = .endOfInput)
    (bound : Nat) : Completes (nestedStatement bound) cursor bound := by
  induction bound with
  | zero =>
    intro input rest result hstatement _ _ hbound
    have hshorter := hstatement.length_lt
    omega
  | succ bound ih =>
    intro input rest result hstatement hend hinput hbound
    obtain ⟨token, more, rfl, _⟩ := hstatement.exists_start
    rw [nestedStatement, bind_of_eq_ok (takeIf_movedTo hinput rfl)]
    exact statementFrom_movedTo ih hstop hstatement hend hinput (Nat.le_of_succ_le_succ hbound)

theorem statement_completes {cursor : Cursor} (hstop : cursor.stop.kind = .endOfInput)
    (bound : Nat) : Completes statement cursor bound := by
  intro input rest result hstatement hend hinput _
  rw [statement, bind_of_eq_ok (remaining_apply _)]
  exact nestedStatement_completes hstop _ hstatement hend hinput (Nat.le_refl _)

end Parser
end KawaiiLang
