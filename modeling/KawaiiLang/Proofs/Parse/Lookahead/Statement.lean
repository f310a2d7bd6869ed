import KawaiiLang.Proofs.Parse.Lookahead.Expression
import KawaiiLang.Proofs.Parse.Sound.Statement

namespace KawaiiLang

/-- Whether a return takes a value shows at the next two tokens. -/
theorem Grammar.takesValue_congr {input input' : List Token}
    (htake : input.take 2 = input'.take 2) : TakesValue input ↔ TakesValue input' := by
  have hsame {first second : List Token} (htake : first.take 2 = second.take 2) :
      TakesValue first → TakesValue second := by
    rintro ⟨token, more, rfl, hstart, hprint, hinput, hname⟩
    obtain ⟨other, others, rfl⟩ : ∃ other others, second = other :: others :=
      List.exists_cons_of_ne_nil (by rintro rfl; simp at htake)
    rw [List.take_succ_cons, List.take_succ_cons, List.cons.injEq] at htake
    obtain ⟨rfl, htake⟩ := htake
    have hhead := congrArg List.head? htake
    rw [List.head?_take, List.head?_take, if_neg (by decide), if_neg (by decide)] at hhead
    exact ⟨token, others, rfl, hstart, hprint, hinput, hhead ▸ hname⟩
  exact ⟨hsame htake, hsame htake.symm⟩

namespace Parser

variable {bound bound' : Nat}

theorem local_seesStatement_bind {β δ : Type} {key : β → δ} {next next' : Bool → Parser β}
    (hnext : ∀ starts, Local bound bound' key (next starts) (next' starts)) :
    Local bound bound' key (seesStatement >>= next) (seesStatement >>= next') := by
  refine local_look_bind ?_ hnext
  intro cursor cursor' hstop hstop' htake
  have hhead := head?_eq_of_take_two_eq htake
  rw [Cursor.current, Cursor.current, List.headD_eq_head?_getD, List.headD_eq_head?_getD, ← hhead]
  cases cursor.rest.head? with
  | none => rw [Option.getD_none, Option.getD_none, hstop, hstop']
  | some token => rfl

/-- Whether a return takes a value shows at the next two tokens. -/
theorem atReturnValue_eq_of_take_two_eq (cursor cursor' : Cursor)
    (hstop : cursor.stop.kind = .endOfInput) (hstop' : cursor'.stop.kind = .endOfInput)
    (htake : cursor.rest.take 2 = cursor'.rest.take 2) :
    cursor.atReturnValue = cursor'.atReturnValue := by
  rw [Bool.eq_iff_iff, Cursor.atReturnValue_iff hstop, Cursor.atReturnValue_iff hstop']
  exact Grammar.takesValue_congr htake

/-- Two ways to read a statement, which read the same tokens, and at least one. -/
structure Paired (bound bound' : Nat) (statement statement' : Parser Stmt) : Prop where
  blind : Blind bound bound' statement statement'
  advances : Advances statement
  advances' : Advances statement'

theorem advances_terminated {statement : Parser Stmt} (hstatement : Advances statement) :
    Advances (terminated statement) := by
  intro cursor next first hstop hterminated
  rw [terminated, bind_eq_ok_iff] at hterminated
  obtain ⟨_, middle, hfirst, hterminated⟩ := hterminated
  rw [bind_eq_ok_iff] at hterminated
  obtain ⟨semicolon, last, haccept, hterminated⟩ := hterminated
  obtain ⟨rfl, rfl⟩ := pure_eq_ok_iff.mp hterminated
  obtain ⟨_, rfl⟩ | ⟨_, _, _, _, hlast⟩ := accept_cases haccept
  · exact hstatement hstop hfirst
  · exact Nat.lt_of_le_of_lt hlast.suffix.length_le (hstatement hstop hfirst)

section

variable {statement statement' : Parser Stmt} (hstatement : Paired bound bound' statement statement')

include hstatement

theorem blind_terminated : Blind bound bound' (terminated statement) (terminated statement') :=
  hstatement.blind.bind fun _ _ _ => local_accept_bind (local_pure rfl) fun _ => local_pure rfl

theorem blind_sequence (length length' : Nat) :
    Blind (min length bound) (min length' bound') (sequence statement length)
      (sequence statement' length') := by
  have hzero (part : Parser Stmt) (cursor : Cursor) (hcursor : cursor.Within 0) :
      sequence part 0 cursor = sequence part 1 cursor := by
    have hstarts : cursor.current.kind.startsStatement = false := by
      rw [Cursor.current, hcursor.rest_eq_nil, List.headD_nil, hcursor.stop_kind]
      rfl
    rw [sequence, sequence, bind_of_eq_ok (seesStatement_apply cursor), hstarts,
      if_neg Bool.false_ne_true]
  have hbase : Blind 0 0 (sequence statement 0) (sequence statement' 0) := local_pure rfl
  have hbound (length bound : Nat) : min (length + 1) bound ≤ min length bound + 1 := by omega
  refine local_loop hbase (hzero _) (hzero _) ?_ length length'
  intro length length' ih
  refine local_seesStatement_bind fun starts => .ite ?_ (local_pure rfl)
  have hfirst := (blind_terminated hstatement).mono (Nat.min_le_right (length + 1) _)
    (Nat.min_le_right (length' + 1) _)
  have hothers (first first' : Stmt) : Blind (min length bound) (min length' bound')
      (do return first :: (← sequence statement length))
      (do return first' :: (← sequence statement' length')) :=
    ih.bind fun _ _ _ => local_pure rfl
  exact hfirst.bind_of_shorter (.inr ⟨hbound _ _, advances_terminated hstatement.advances⟩)
    (.inr ⟨hbound _ _, advances_terminated hstatement.advances'⟩) fun _ _ _ => hothers _ _

theorem blind_bodyOf : Blind bound bound' (bodyOf statement) (bodyOf statement') := by
  refine local_remaining_bind fun length hlength length' hlength' => ?_
  exact (blind_sequence hstatement length length').of_min hlength hlength'

theorem blind_blockOf : Blind bound bound' (blockOf statement) (blockOf statement') :=
  (blind_bodyOf hstatement).bind fun _ _ _ => local_expect_then (local_pure rfl)

theorem blind_branchOf (keyword : Keyword) :
    Blind bound bound' (branchOf statement keyword) (branchOf statement' keyword) := by
  refine local_expect_then (blind_expression.bind fun _ _ _ => ?_)
  refine local_expect_then (local_expect_then ?_)
  exact (blind_blockOf hstatement).bind fun _ _ _ => local_pure rfl

theorem blind_elifsOf (length length' : Nat) :
    Blind (min length bound) (min length' bound') (elifsOf statement length)
      (elifsOf statement' length') := by
  have hzero (part : Parser Stmt) (cursor : Cursor) (hcursor : cursor.Within 0) :
      elifsOf part 0 cursor = elifsOf part 1 cursor := by
    have hnone : ∀ token ∈ cursor.rest.head?, token.kind ≠ .keyword .nyanyan := by
      simp [hcursor.rest_eq_nil]
    rw [elifsOf, elifsOf, bind_of_eq_ok (accept_of_kind_ne hnone)]
  have hbase : Blind 0 0 (elifsOf statement 0) (elifsOf statement' 0) := local_pure rfl
  refine local_loop hbase (hzero _) (hzero _) ?_ length length'
  intro length length' ih
  refine local_takeIf_bind (local_pure rfl) ?_
  intro _ token _
  have hbranch := (blind_branchOf hstatement .nyanyan).mono
    (Nat.le_trans (Nat.sub_le _ 1) (Nat.min_le_right (length + 1) _))
    (Nat.le_trans (Nat.sub_le _ 1) (Nat.min_le_right (length' + 1) _))
  refine .inl (hbranch.bind fun _ _ _ => Local.bind (ih.mono ?_ ?_) fun _ _ _ => local_pure rfl)
  · omega
  · omega

theorem blind_otherwiseOf : Blind bound bound' (otherwiseOf statement) (otherwiseOf statement') := by
  refine local_accept_bind (local_pure rfl) fun _ => local_expect_then ?_
  exact (blind_blockOf hstatement).bind fun _ _ _ => local_pure rfl

theorem blind_loopBodyOf : Blind bound bound' (loopBodyOf statement) (loopBodyOf statement') := by
  refine local_accept_bind ?_ fun _ => local_pure rfl
  refine local_accept_bind ?_ fun _ => local_pure rfl
  exact local_expect_then ((blind_blockOf hstatement).bind fun _ _ _ => local_pure rfl)

theorem blind_loopOf (first : Span) :
    Blind bound bound' (loopOf statement first) (loopOf statement' first) := by
  refine local_expect_then (blind_expression.bind fun _ _ _ => local_expect_then ?_)
  exact (blind_loopBodyOf hstatement).node _ _ _ _

theorem blind_conditionalOf (first : Span) :
    Blind bound bound' (conditionalOf statement first) (conditionalOf statement' first) := by
  refine (blind_branchOf hstatement .nyan).bind fun _ _ _ => ?_
  refine local_remaining_bind fun length hlength length' hlength' => ?_
  have helifs := (blind_elifsOf hstatement length length').of_min hlength hlength'
  refine helifs.bind fun _ _ _ => ?_
  exact ((blind_otherwiseOf hstatement).mono hlength hlength').node _ _ _ _

theorem blind_guardedOf (first : Span) :
    Blind bound bound' (guardedOf statement first) (guardedOf statement' first) := by
  refine local_expect_then ((blind_blockOf hstatement).bind fun _ _ _ => ?_)
  refine local_expect_then (local_expect_then ?_)
  exact (blind_blockOf hstatement).node _ _ _ _

end

theorem blind_returnAt (first : Span) : Blind bound bound' (returnAt first) (returnAt first) := by
  let decided (takes : Bool) : Parser Stmt :=
    if takes then do
      let value ← expression
      return .returnWith (some value) (← spanFrom first)
    else return .returnWith none first
  have hdecided (takes : Bool) : Blind bound bound' (decided takes) (decided takes) :=
    .ite (blind_expression.node _ _ _ _) (local_pure rfl)
  have hreturn := local_look_bind atReturnValue_eq_of_take_two_eq hdecided
  exact hreturn

theorem blind_nameStatement (name : Token) :
    Blind bound bound' (nameStatement name) (nameStatement name) := by
  refine local_accept_bind ?_ fun _ => blind_expression.bind fun _ _ _ => local_pure rfl
  refine local_takeIf_bind ?_ fun _ _ _ => .inl (blind_spanFrom _ _ _ _)
  refine local_sees_bind fun opened => .ite ?_ (local_unmet _ _)
  exact (blind_arguments _ _).node _ _ _ _

/-- What follows the first token of a statement, unless that token is refused. -/
theorem blind_statementFrom {nested nested' : Parser Stmt}
    (hnested : Paired bound bound' nested nested') (token : Token) :
    Blind bound bound' (statementFrom nested token) (statementFrom nested' token) ∨
      Refuse token (statementFrom nested token) (statementFrom nested' token) := by
  unfold statementFrom
  split
  -- The statements of one word.
  iterate 3
    · exact .inl (local_pure rfl)
  · exact .inl (blind_returnAt _)
  · exact .inl (blind_loopOf hnested _)
  · exact .inl (blind_conditionalOf hnested _)
  · exact .inl (blind_guardedOf hnested _)
  -- Output and input.
  · exact .inl ((blind_arguments _ _).node _ _ _ _)
  · exact .inl (blind_prompt.node _ _ _ _)
  · exact .inl (blind_nameStatement token)
  · exact .inr ⟨_, rfl, rfl⟩

theorem blind_nestedStatement_succ {length length' : Nat}
    (hnested : Paired bound bound' (nestedStatement length) (nestedStatement length')) :
    Blind (bound + 1) (bound' + 1) (nestedStatement (length + 1)) (nestedStatement (length' + 1)) := by
  refine local_takeIf_bind (local_unmet _ _) ?_
  rintro token _ ⟨⟩
  exact blind_statementFrom hnested token

theorem paired_nestedStatement_self (length : Nat) :
    ∀ bound, Paired bound bound (nestedStatement length) (nestedStatement length) := by
  induction length with
  | zero =>
    have hadvances : Advances (nestedStatement 0) :=
      fun _ _ _ _ hstatement => absurd hstatement unmet_ne_ok
    exact fun _ => ⟨local_unmet _ _, hadvances, hadvances⟩
  | succ length ih =>
    have hadvances : Advances (nestedStatement (length + 1)) := by
      intro cursor next result hstop hstatement
      rw [nestedStatement, bind_eq_ok_iff] at hstatement
      obtain ⟨found, first, htake, hstatement⟩ := hstatement
      obtain ⟨rfl, rfl, _⟩ | ⟨token, _, rfl, hrest, hfound, hfirst⟩ := takeIf_cases htake
      · exact absurd hstatement unmet_ne_ok
      · cases hfound
        replace hstatement : statementFrom (nestedStatement length) token first = .ok result next :=
          hstatement
        obtain hblind | ⟨fault, hrefuse, _⟩ := blind_statementFrom (ih first.rest.length) token
        · have hwithin : first.Within first.rest.length :=
            ⟨hfirst.eq_movedTo ▸ hstop, Nat.le_refl _⟩
          have hlocal := hblind first first hwithin hwithin
          rw [LocalAt, hstatement] at hlocal
          rw [hrest, List.length_cons]
          exact Nat.lt_succ_of_le hlocal.2.1.length_le
        · rw [hrefuse] at hstatement
          exact absurd hstatement refuse_ne_ok
    intro bound
    refine ⟨?_, hadvances, hadvances⟩
    exact (blind_nestedStatement_succ (ih bound)).mono (Nat.le_succ _) (Nat.le_succ _)

theorem advances_nestedStatement (length : Nat) : Advances (nestedStatement length) :=
  (paired_nestedStatement_self length 0).advances

theorem blind_nestedStatement (length length' : Nat) :
    Blind (min length bound) (min length' bound') (nestedStatement length)
      (nestedStatement length') := by
  have hzero (cursor : Cursor) (hcursor : cursor.Within 0) :
      nestedStatement 0 cursor = nestedStatement 1 cursor := by
    have hnone : ∀ token ∈ cursor.rest.head?, some token = none := by simp [hcursor.rest_eq_nil]
    rw [nestedStatement, nestedStatement, bind_of_eq_ok (takeIf_of_eq_none hnone)]
  refine local_loop (local_unmet _ _) hzero hzero ?_ length length'
  intro length length' ih
  have hnested := blind_nestedStatement_succ
    ⟨ih, advances_nestedStatement length, advances_nestedStatement length'⟩
  exact hnested.mono (by omega) (by omega)

theorem paired_statement : Paired bound bound' statement statement := by
  have hadvances : Advances statement :=
    fun cursor _ _ hstop hstatement => advances_nestedStatement cursor.rest.length hstop hstatement
  refine ⟨?_, hadvances, hadvances⟩
  refine local_remaining_bind fun length _ length' _ => ?_
  exact (blind_nestedStatement length length').of_min (Nat.le_refl _) (Nat.le_refl _)

end Parser
end KawaiiLang
