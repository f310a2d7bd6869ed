import KawaiiLang.Proofs.Parse.Complete.Statement
import KawaiiLang.Proofs.Parse.Viable.Expression

namespace KawaiiLang

open Grammar (Phrase Clause Prompt)

namespace Grammar

/-- The tokens in front of the rest can be read as the clause. -/
def Clause.Heads (clause : Clause) : Reading :=
  fun input rest => ∃ tree, clause.Derives input tree rest

/-- The tokens in front of a rest that does not go on with the statement are one. Whether a return
    without a value is one depends on more of that rest, which is left open here. -/
def Stated : Reading :=
  fun input rest => Clause.statement.EndsAt rest → Clause.statement.Heads input rest ∨
    ∃ token, input = token :: rest ∧ token.kind = .keyword .sayonara

/-- A statement and the semicolon that may follow it. -/
def Terminated : Reading :=
  fun input rest => Stated input rest ∨
    ∃ semicolon, semicolon.kind = .symbol .semicolon ∧ Stated input (semicolon :: rest)

/-- The tokens in front of a closing brace are a body. -/
def Bodied : Reading :=
  fun input rest => Clause.body.EndsAt rest → Clause.body.Heads input rest

/-- A condition in parentheses and the block that depends on it. -/
def Branched : Reading :=
  fun input rest => ∃ opening closing inside middle, input = opening :: inside ∧
    opening.kind = .symbol .leftParen ∧ Phrase.expression.Heads inside (closing :: middle) ∧
    closing.kind = .symbol .rightParen ∧ Clause.block.Heads middle rest

theorem not_takesValue {token : Token} (rest : List Token)
    (htoken : token.kind.startsExpression = false) : ¬ TakesValue (token :: rest) := by
  rintro ⟨_, _, hinput, hstart, _⟩
  cases hinput
  rw [startsExpression_iff, htoken] at hstart
  cases hstart

theorem not_takesValue_of_semicolon {semicolon : Token} (rest : List Token)
    (hsemicolon : semicolon.kind = .symbol .semicolon) : ¬ TakesValue (semicolon :: rest) :=
  not_takesValue rest (by rw [hsemicolon]; rfl)

theorem Clause.EndsAt.not_takesValue {rest : List Token} (hend : Clause.body.EndsAt rest) :
    ¬ TakesValue rest := by
  rintro ⟨token, more, rfl, hstart, _⟩
  have hbrace : token.kind = .symbol .rightBrace := hend token rfl
  rw [startsExpression_iff, hbrace] at hstart
  cases hstart

/-- Only the first token of a value counts, or the one behind it if the first one is a name. -/
theorem TakesValue.replace {token : Token} {read rest other : List Token}
    (htakes : TakesValue (token :: (read ++ other)))
    (hrest : read = [] → token.kind = .identifier → Clause.statement.EndsAt rest) :
    TakesValue (token :: (read ++ rest)) := by
  obtain ⟨_, _, hinput, hstart, hprint, hread, hname⟩ := htakes
  cases hinput
  refine ⟨token, _, rfl, hstart, hprint, hread, ?_⟩
  rintro ⟨htoken, next, hnext, hkind⟩
  cases read with
  | nil =>
    have hend := hrest rfl htoken next hnext
    obtain hkind | hkind | hkind := hkind
    all_goals simp [Clause.Ends, hkind, Token.Kind.startsStatement] at hend
  | cons second read => exact hname ⟨htoken, next, hnext, hkind⟩

/-- Of all statements, only a call can be taken for the value of a return in front of it. -/
theorem Clause.Derives.takesValue_iff {input rest : List Token} {result : Stmt}
    (hstatement : Clause.statement.Derives input result rest) :
    TakesValue input ↔ ∃ name args span, result = .call name args span := by
  constructor
  · rintro ⟨token, more, rfl, hstart, hprint, hread, hname⟩
    rw [startsExpression_iff] at hstart
    cases hstatement with
    | call => exact ⟨_, _, _, rfl⟩
    | assign htoken hsign => exact absurd ⟨htoken, _, rfl, .inl hsign⟩ hname
    | increment htoken hsign => exact absurd ⟨htoken, _, rfl, .inr (.inl hsign)⟩ hname
    | decrement htoken hsign => exact absurd ⟨htoken, _, rfl, .inr (.inr hsign)⟩ hname
    | print htoken => exact absurd htoken hprint
    | input htoken => exact absurd htoken hread
    | pass htoken | breakLoop htoken | continueLoop htoken | returnValue htoken
    | returnNothing htoken | loop htoken | branch htoken | guarded htoken =>
      rw [htoken] at hstart
      cases hstart
  · rintro ⟨name, args, span, rfl⟩
    cases hstatement with
    | call htoken hargs =>
      refine ⟨_, _, rfl, ?_, by simp [htoken], by simp [htoken], ?_⟩
      · rw [startsExpression_iff, htoken]
        rfl
      · rintro ⟨_, next, hnext, hkind⟩
        cases hargs with
        | noArguments hopening | arguments hopening =>
          cases hnext
          simp [hopening] at hkind

theorem Clause.Derives.call_of_takesValue {input rest : List Token} {result : Stmt}
    (hstatement : Clause.statement.Derives input result rest) (htakes : TakesValue input) :
    Phrase.expression.Heads input rest := by
  obtain ⟨name, args, span, rfl⟩ := hstatement.takesValue_iff.mp htakes
  cases hstatement with
  | call htoken hargs => exact ⟨_, .expression (.simple (.term (.call htoken hargs)))⟩

/-- A return in front of a body is read with or without a value, and there is a body in each
    case. -/
theorem Clause.Derives.body_of_return {token : Token} {middle rest : List Token}
    {others : List Stmt} (htoken : token.kind = .keyword .sayonara)
    (hothers : Clause.body.Derives middle others rest) (hend : Clause.body.EndsAt rest) :
    Clause.body.Heads (token :: middle) rest := by
  by_cases htakes : TakesValue middle
  · cases hothers with
    | empty => exact absurd htakes hend.not_takesValue
    | plain hfirst hothers =>
      obtain ⟨value, hvalue⟩ := hfirst.call_of_takesValue htakes
      exact ⟨_, .plain (.returnValue htoken htakes hvalue) hothers⟩
    | terminated hfirst hsemicolon hothers =>
      obtain ⟨value, hvalue⟩ := hfirst.call_of_takesValue htakes
      exact ⟨_, .terminated (.returnValue htoken htakes hvalue) hsemicolon hothers⟩
  · exact ⟨_, .plain (.returnNothing htoken htakes) hothers⟩

theorem Bodied.cons {input middle rest : List Token} (hfirst : Terminated input middle)
    (hothers : Bodied middle rest) : Bodied input rest := by
  intro hend
  obtain ⟨others, hothers⟩ := hothers hend
  obtain hfirst | ⟨semicolon, hsemicolon, hfirst⟩ := hfirst
  · obtain ⟨first, hfirst⟩ | ⟨token, rfl, htoken⟩ := hfirst (hothers.onward hend).endsAt
    · exact ⟨_, .plain hfirst hothers⟩
    · exact hothers.body_of_return htoken hend
  · obtain ⟨first, hfirst⟩ | ⟨token, rfl, htoken⟩ := hfirst (.of_semicolon hsemicolon _)
    · exact ⟨_, .terminated hfirst hsemicolon hothers⟩
    · have hquiet := not_takesValue_of_semicolon middle hsemicolon
      exact ⟨_, .terminated (.returnNothing htoken hquiet) hsemicolon hothers⟩

end Grammar

namespace Parser

open Grammar (Stated Terminated Bodied)

/-- Where a statement can begin, one is read. -/
def SpellsStatement (statement : Parser Stmt) : Prop :=
  ∀ cursor : Cursor, cursor.Lexed → cursor.current.kind.startsStatement = true →
    SpellsAt Stated statement cursor

/-- What is read where a statement can begin, and else. -/
theorem spells_seesStatement_bind {α : Type} {T : Reading} {first second : Parser α}
    (hfirst : ∀ cursor : Cursor, cursor.Lexed → cursor.current.kind.startsStatement = true →
      SpellsAt T first cursor) (hsecond : Spells T second) :
    Spells T (seesStatement >>= fun starts => if starts = true then first else second) := by
  refine ⟨hsecond.opens, ?_⟩
  intro cursor hlexed
  have hsees := bind_of_eq_ok (seesStatement_apply cursor)
    fun starts => if starts = true then first else second
  by_cases hstarts : cursor.current.kind.startsStatement = true
  · refine (hfirst cursor hlexed hstarts).of_eq ?_
    rw [hsees, if_pos hstarts]
  · refine (hsecond.spellsAt cursor hlexed).of_eq ?_
    rw [hsees, if_neg hstarts]

section

variable {statement : Parser Stmt} (hstatement : SpellsStatement statement)

include hstatement

theorem spellsAt_terminated {cursor : Cursor} (hlexed : cursor.Lexed)
    (hstarts : cursor.current.kind.startsStatement = true) :
    SpellsAt Terminated (terminated statement) cursor := by
  refine (hstatement cursor hlexed hstarts).bind hlexed fun first => spells_accept_bind ?_ ?_
  · exact spells_pure fun rest input hinput => .inl hinput
  · intro semicolon _ hsemicolon
    exact spells_pure fun rest input hinput => .inr ⟨semicolon, hsemicolon, hinput⟩

theorem spells_bodyOf : Spells Bodied (bodyOf statement) := by
  have hempty : Spells Bodied (pure ([] : List Stmt)) := spells_pure fun rest _ => ⟨_, .empty⟩
  refine spells_look_bind fun bound => ?_
  induction bound with
  | zero => exact hempty
  | succ bound ih =>
    refine spells_seesStatement_bind ?_ hempty
    intro cursor hlexed hstarts
    refine (spellsAt_terminated hstatement hlexed hstarts).bind hlexed fun first => ?_
    refine Spells.bind ih fun others => spells_pure ?_
    intro rest middle hothers input hfirst
    exact hothers.cons hfirst

/-- A block behind its opening brace. -/
theorem spells_blockOf {opening : Token} (hopening : opening.kind = .symbol .leftBrace) :
    Spells (Clause.block.Heads.past opening) (blockOf statement) := by
  refine (spells_bodyOf hstatement).bind fun body => ?_
  refine spells_expect_bind nofun fun closing hclosing => spells_pure ?_
  intro rest input hbody
  have hend : Clause.body.Ends closing.kind := hclosing
  obtain ⟨statements, hstatements⟩ := hbody (.of_ends hend rest)
  exact ⟨_, .block hopening hstatements hclosing⟩

/-- A condition and its block, from one parenthesis to the last brace. -/
theorem spells_branchOf (keyword : Keyword) :
    Spells Grammar.Branched (branchOf statement keyword) := by
  refine spells_expect_bind nofun fun opening hopening => ?_
  refine spells_expression.bind fun condition => ?_
  refine spells_expect_bind nofun fun closing hclosing => ?_
  refine spells_expect_bind nofun fun brace hbrace => ?_
  refine (spells_blockOf hstatement hbrace).bind fun body => spells_pure ?_
  intro rest middle hblock input hcondition
  exact ⟨opening, closing, input, _, rfl, hopening, hcondition, hclosing, hblock⟩

theorem spells_elifsOf (bound : Nat) : Spells Clause.elifs.Heads (elifsOf statement bound) := by
  have hnone {α : Type} {elifs : α} : Spells Clause.elifs.Heads (pure elifs) :=
    spells_pure fun rest => ⟨_, .noElif⟩
  induction bound with
  | zero => exact hnone
  | succ bound ih =>
    refine spells_accept_bind hnone fun token _ htoken => ?_
    refine (spells_branchOf hstatement .nyanyan).bind fun branch => ?_
    refine Spells.bind ih fun others => spells_pure ?_
    rintro rest middle ⟨others, hothers⟩ _
      ⟨opening, closing, input, first, rfl, hopening, ⟨condition, hcondition⟩, hclosing, body, hbody⟩
    exact ⟨_, .elif htoken hopening hcondition hclosing hbody hothers⟩

theorem spells_otherwiseOf : Spells Clause.otherwise.Heads (otherwiseOf statement) := by
  refine spells_accept_bind ?_ fun token _ htoken => ?_
  · exact spells_pure fun rest => ⟨_, .noOtherwise⟩
  · refine spells_expect_bind nofun fun opening hopening => ?_
    refine (spells_blockOf hstatement hopening).bind fun body => spells_pure ?_
    rintro rest input ⟨body, hbody⟩
    exact ⟨_, .otherwise htoken hbody⟩

theorem spells_loopBodyOf : Spells Clause.loopBody.Heads (loopBodyOf statement) := by
  refine spells_accept_bind ?_ fun token _ htoken =>
    spells_pure fun rest => ⟨_, .breakOnly htoken⟩
  refine spells_accept_bind ?_ fun token _ htoken =>
    spells_pure fun rest => ⟨_, .continueOnly htoken⟩
  refine spells_expect_bind nofun fun opening hopening => ?_
  refine (spells_blockOf hstatement hopening).bind fun body => spells_pure ?_
  rintro rest input ⟨body, hbody⟩
  exact ⟨_, .loopBlock hbody⟩

section

variable {token : Token} {first : Span}

theorem spells_loopOf (htoken : token.kind = .keyword .nani) :
    Spells (Clause.statement.Heads.past token) (loopOf statement first) := by
  have : Inhabited LoopBody := ⟨.breakOnly⟩
  refine spells_expect_bind nofun fun opening hopening => ?_
  refine spells_expression.bind fun condition => ?_
  refine spells_expect_bind nofun fun closing hclosing => ?_
  refine (spells_loopBodyOf hstatement).node ?_
  rintro middle rest ⟨body, hbody⟩ input ⟨condition, hcondition⟩
  exact ⟨_, .loop htoken hopening hcondition hclosing hbody⟩

theorem spells_conditionalOf (htoken : token.kind = .keyword .nyan) :
    Spells (Clause.statement.Heads.past token) (conditionalOf statement first) := by
  refine (spells_branchOf hstatement .nyan).bind fun branch => ?_
  refine spells_look_bind fun bound => ?_
  refine (spells_elifsOf hstatement bound).bind fun elifs => ?_
  refine (spells_otherwiseOf hstatement).node ?_
  rintro third rest ⟨otherwise, hotherwise⟩ second ⟨elifs, helifs⟩ _
    ⟨opening, closing, input, first, rfl, hopening, ⟨condition, hcondition⟩, hclosing, body, hbody⟩
  exact ⟨_, .branch htoken hopening hcondition hclosing hbody helifs hotherwise⟩

theorem spells_guardedOf (htoken : token.kind = .keyword .ganbatte) :
    Spells (Clause.statement.Heads.past token) (guardedOf statement first) := by
  refine spells_expect_bind nofun fun opening hopening => ?_
  refine (spells_blockOf hstatement hopening).bind fun body => ?_
  refine spells_expect_bind nofun fun handlerToken hhandlerToken => ?_
  refine spells_expect_bind nofun fun brace hbrace => ?_
  refine (spells_blockOf hstatement hbrace).node ?_
  rintro middle rest ⟨handler, hhandler⟩ input ⟨body, hbody⟩
  exact ⟨_, .guarded htoken hbody hhandlerToken hhandler⟩

end

end

section

variable {token : Token} {first : Span}

theorem spells_nameStatement (htoken : token.kind = .identifier) :
    Spells (Clause.statement.Heads.past token) (nameStatement token) := by
  refine spells_accept_bind ?_ fun sign _ hsign => ?_
  · refine spells_takeIf_bind ?_ fun sign op _ hop => .inl (spells_spanFrom fun rest => ?_)
    · refine spells_look_bind fun opened => .ite ?_ (spells_unmet ?_ _)
      · refine (spells_arguments _).node ?_
        rintro input rest ⟨args, hargs⟩
        exact ⟨_, .call htoken hargs⟩
      · exact Reading.opens_sample (.symbol .increment) nofun fun rest => ⟨_, .increment htoken rfl⟩
    · unfold updateOp at hop
      split at hop
      · next hsign => exact ⟨_, .increment htoken hsign⟩
      · next hsign => exact ⟨_, .decrement htoken hsign⟩
      · cases hop
  · refine spells_expression.bind fun value => spells_pure ?_
    rintro rest input ⟨value, hvalue⟩
    exact ⟨_, .assign htoken hsign hvalue⟩

/-- A value behind a return makes a statement of it. A name alone must not be completed: behind it
    an operator could make an update of it. -/
theorem word_returnValue (htoken : token.kind = .keyword .sayonara) {next : Token}
    {read more onward : List Token} (htakes : Grammar.TakesValue (next :: (read ++ onward)))
    (hword : Phrase.expression.Heads.Word (next :: read ++ more))
    (hmore : read = [] → next.kind = .identifier → more = []) :
    (Stated.past token).Word (next :: read ++ more) := by
  intro rest hend
  obtain ⟨value, hvalue⟩ := hword rest
  have htakes : Grammar.TakesValue (next :: (read ++ (more ++ rest))) := by
    refine htakes.replace fun hread hnext => ?_
    rwa [hmore hread hnext]
  rw [← List.append_assoc] at htakes
  exact .inl ⟨_, .returnValue htoken htakes hvalue⟩

theorem opens_returnValue (htoken : token.kind = .keyword .sayonara) {read onward : List Token}
    (htakes : Grammar.TakesValue (read ++ onward)) (hread : Phrase.expression.Heads.Opens read) :
    (Stated.past token).Opens read := by
  cases read with
  | nil => exact Reading.Word.opens fun rest _ => .inr ⟨token, rfl, htoken⟩
  | cons next read =>
    by_cases hname : read = [] ∧ next.kind = .identifier
    · obtain ⟨rfl, hname⟩ := hname
      have hword : Phrase.expression.Heads.Word ([next] ++ []) :=
        fun rest => ⟨_, .expression (.simple (.term (.name hname)))⟩
      exact (word_returnValue htoken htakes hword fun _ _ => rfl).opens
    · obtain ⟨more, hmore, hword⟩ := hread
      exact ⟨more, hmore, word_returnValue htoken htakes hword
        fun hread hnext => absurd ⟨hread, hnext⟩ hname⟩

theorem spellsAt_returnValue {cursor : Cursor} (hlexed : cursor.Lexed)
    (htoken : token.kind = .keyword .sayonara) (htakes : Grammar.TakesValue cursor.rest) :
    SpellsAt (Stated.past token) expression cursor := by
  have hvalue := spells_expression.spellsAt cursor hlexed
  rw [SpellsAt] at hvalue ⊢
  cases hresult : expression cursor with
  | ok value next =>
    rw [hresult] at hvalue
    obtain ⟨hstop, read, hread, hword⟩ := hvalue
    obtain ⟨_, hvalue⟩ := hword []
    obtain ⟨first, more, hfirst, _⟩ := hvalue.exists_cons
    rw [List.append_nil] at hfirst
    subst hfirst
    rw [hread] at htakes
    rw [← List.append_nil (first :: more)] at hword
    have hreturn := word_returnValue htoken htakes hword fun _ _ => rfl
    rw [List.append_nil] at hreturn
    exact ⟨hstop, _, hread, hreturn⟩
  | error error next =>
    rw [hresult] at hvalue
    obtain ⟨read, hread, hfound, hopens⟩ := hvalue
    rw [hread] at htakes
    exact ⟨read, hread, hfound, opens_returnValue htoken htakes hopens⟩

theorem spells_returnAt (htoken : token.kind = .keyword .sayonara) :
    Spells (Stated.past token) (returnAt first) := by
  have hnothing : Spells (Stated.past token) (pure (Stmt.returnWith none first)) :=
    spells_pure fun rest _ => .inr ⟨token, rfl, htoken⟩
  refine ⟨hnothing.opens, ?_⟩
  intro cursor hlexed
  have hget : returnAt first cursor = _ := bind_of_eq_ok (get_apply cursor) _
  by_cases hvalue : cursor.atReturnValue = true
  · rw [if_pos hvalue] at hget
    rw [Cursor.atReturnValue_iff hlexed.stop_kind] at hvalue
    have hread := spellsAt_returnValue hlexed htoken hvalue
    exact (hread.bind hlexed fun value => spells_spanFrom fun _ _ => id).of_eq hget
  · rw [if_neg hvalue] at hget
    exact (hnothing.spellsAt cursor hlexed).of_eq hget

end

/-- What follows the first token of a statement. -/
theorem spells_statementFrom {nested : Parser Stmt} (hnested : SpellsStatement nested)
    {token : Token} (hstarts : token.kind.startsStatement = true) :
    Spells (Stated.past token) (statementFrom nested token) := by
  have hstated : ∀ input rest, Clause.statement.Heads.past token input rest →
      Stated.past token input rest := fun input rest hinput _ => .inl hinput
  unfold statementFrom
  split
  -- The statements of one word.
  · next htoken => exact spells_pure fun rest _ => .inl ⟨_, .pass htoken⟩
  · next htoken => exact spells_pure fun rest _ => .inl ⟨_, .breakLoop htoken⟩
  · next htoken => exact spells_pure fun rest _ => .inl ⟨_, .continueLoop htoken⟩
  · next htoken => exact spells_returnAt htoken
  · next htoken => exact (spells_loopOf hnested htoken).mono hstated
  · next htoken => exact (spells_conditionalOf hnested htoken).mono hstated
  · next htoken => exact (spells_guardedOf hnested htoken).mono hstated
  -- Output and input.
  · next htoken =>
    refine (spells_arguments _).node ?_
    rintro input rest ⟨args, hargs⟩ _
    exact .inl ⟨_, .print htoken hargs⟩
  · next htoken =>
    refine spells_prompt.node ?_
    rintro input rest ⟨text, htext⟩ _
    exact .inl ⟨_, .input htoken htext⟩
  · next htoken => exact (spells_nameStatement htoken).mono hstated
  · unfold Token.Kind.startsStatement at hstarts
    split at hstarts
    all_goals contradiction

theorem spells_nestedStatement (bound : Nat) : SpellsStatement (nestedStatement bound) := by
  induction bound with
  | zero =>
    have hopens : Stated.Opens [] :=
      Reading.opens_sample (.keyword .pasu) nofun fun rest _ => .inl ⟨_, .pass rfl⟩
    exact fun cursor hlexed _ => (spells_unmet hopens _).spellsAt cursor hlexed
  | succ bound ih =>
    intro cursor hlexed hstarts
    cases hrest : cursor.rest with
    | nil =>
      rw [Cursor.current, hrest, List.headD_nil, hlexed.stop_kind] at hstarts
      cases hstarts
    | cons token rest =>
      rw [Cursor.current, hrest, List.headD_cons] at hstarts
      exact (spells_statementFrom ih hstarts).spellsAt_takeIf hlexed hrest rfl

theorem spells_statement : SpellsStatement statement :=
  fun cursor hlexed hstarts => spells_nestedStatement cursor.rest.length cursor hlexed hstarts

end Parser
end KawaiiLang
