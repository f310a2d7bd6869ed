import KawaiiLang.Proofs.Parse.Complete.Expression
import KawaiiLang.Proofs.Parse.Lookahead.Cursor

namespace KawaiiLang.Parser

variable {bound bound' : Nat}

section

variable {operand operand' : Parser Expr} (hoperand : Blind bound bound' operand operand')

include hoperand

theorem blind_chain (operator : Token.Kind → Option BinaryOp) (length length' : Nat) :
    Blind (min length bound) (min length' bound') (chain operator operand length)
      (chain operator operand' length') := by
  have hzero {part : Parser Expr} {cursor : Cursor}
      (hpart : ∀ value next, part cursor = .ok value next → next.rest = []) :
      chain operator part 0 cursor = chain operator part 1 cursor := by
    cases hresult : part cursor with
    | ok value next =>
      rw [chain_single 1 hresult (by simp [hpart value next hresult])]
      exact hresult
    | error error next =>
      rw [chain, chain, bind_of_eq_error hresult, hresult]
  refine local_loop (hoperand.mono (Nat.zero_le _) (Nat.zero_le _)) ?_ ?_ ?_ length length'
  · exact fun cursor hcursor => hzero fun _ _ => hoperand.rest_eq_nil hcursor
  · exact fun cursor hcursor => hzero fun _ _ => hoperand.rest_eq_nil' hcursor
  · intro length length' ih
    refine (hoperand.mono (Nat.min_le_right _ _) (Nat.min_le_right _ _)).bind ?_
    intro left left' _
    refine local_takeIf_bind (local_pure rfl) ?_
    intro token op _
    refine .inl (Local.bind (ih.mono (by omega) (by omega)) ?_)
    exact fun _ _ _ => local_pure rfl

theorem blind_tier (operator : Token.Kind → Option BinaryOp) :
    Blind bound bound' (tier operator operand) (tier operator operand') := by
  refine local_remaining_bind fun length hlength length' hlength' => ?_
  exact (blind_chain hoperand operator length length').of_min hlength hlength'

theorem blind_expressionOf : Blind bound bound' (expressionOf operand) (expressionOf operand') :=
  blind_tier (blind_tier (blind_tier hoperand multiplicative) additive) relational

theorem blind_commaSeparated (length length' : Nat) :
    Blind (min length bound) (min length' bound') (commaSeparated operand length)
      (commaSeparated operand' length') := by
  have hzero {item : Parser Expr} {cursor : Cursor}
      (hitem : ∀ value next, item cursor = .ok value next → next.rest = []) :
      commaSeparated item 0 cursor = commaSeparated item 1 cursor := by
    cases hresult : item cursor with
    | ok value next =>
      have hrest : ∀ token ∈ next.rest.head?, token.kind ≠ .symbol .comma := by
        simp [hitem value next hresult]
      rw [commaSeparated_single 1 hresult hrest, commaSeparated_single 0 hresult hrest]
    | error error next =>
      rw [commaSeparated, commaSeparated, bind_of_eq_error hresult, bind_of_eq_error hresult]
  refine local_loop ?_ ?_ ?_ ?_ length length'
  · exact (hoperand.mono (Nat.zero_le _) (Nat.zero_le _)).bind fun _ _ _ => local_pure rfl
  · exact fun cursor hcursor => hzero fun _ _ => hoperand.rest_eq_nil hcursor
  · exact fun cursor hcursor => hzero fun _ _ => hoperand.rest_eq_nil' hcursor
  · intro length length' ih
    refine (hoperand.mono (Nat.min_le_right _ _) (Nat.min_le_right _ _)).bind ?_
    intro first first' _
    refine local_takeIf_bind (local_pure rfl) ?_
    intro comma found _
    refine .inl (Local.bind (ih.mono (by omega) (by omega)) ?_)
    exact fun _ _ _ => local_pure rfl

theorem blind_argumentsOf (callee callee' : String) :
    Blind bound bound' (argumentsOf operand callee) (argumentsOf operand' callee') := by
  refine local_expect_then (local_sees_bind fun closed => ?_)
  cases closed with
  | true => exact local_expect_then (local_pure rfl)
  | false =>
    refine local_remaining_bind fun length hlength length' hlength' => ?_
    have hitems := (blind_commaSeparated hoperand length length').of_min hlength hlength'
    exact hitems.bind fun _ _ _ => local_expect_then (local_pure rfl)

end

theorem blind_prompt : Blind bound bound' prompt prompt := by
  have hclose (text : Option String) :
      Blind bound bound' (expect (.symbol .rightParen) .promptClose >>= fun _ => pure text)
        (expect (.symbol .rightParen) .promptClose >>= fun _ => pure text) :=
    local_expect_then (local_pure rfl)
  refine local_expect_then (local_accept_bind (hclose none) ?_)
  intro token
  split
  · exact hclose _
  · exact hclose _
  · exact hclose _

/-- What follows the first token of an expression, unless that token is refused. -/
theorem blind_factorFrom {nested nested' : Parser Expr} (hnested : Blind bound bound' nested nested')
    (token : Token) :
    Blind bound bound' (factorFrom nested token) (factorFrom nested' token) ∨
      Refuse token (factorFrom nested token) (factorFrom nested' token) := by
  have hinner := blind_expressionOf hnested
  have hargs (callee : String) := blind_argumentsOf hinner callee callee
  unfold factorFrom
  split
  -- An operator in front of its operand.
  · exact .inl (hnested.bind fun _ _ _ => local_pure rfl)
  · exact .inl (hnested.bind fun _ _ _ => local_pure rfl)
  -- Parentheses.
  · exact .inl (hinner.bind fun _ _ _ => local_expect_then (blind_spanFrom _ _ _ _))
  -- A name, or a call of it.
  · refine .inl (local_sees_bind fun opened => ?_)
    cases opened with
    | true => exact (hargs _).node _ _ _ _
    | false => exact local_pure rfl
  -- Output and input.
  · exact .inl ((hargs _).node _ _ _ _)
  · exact .inl (blind_prompt.node _ _ _ _)
  -- Constants.
  · exact .inl (local_pure rfl)
  · exact .inl (local_pure rfl)
  iterate 3
    · split
      · exact .inl (local_pure rfl)
      · exact .inr ⟨_, rfl, rfl⟩
  · exact .inr ⟨_, rfl, rfl⟩

theorem blind_factor (length length' : Nat) :
    Blind (min length bound) (min length' bound') (factor length) (factor length') := by
  have hzero (cursor : Cursor) (hcursor : cursor.Within 0) : factor 0 cursor = factor 1 cursor := by
    have hnone : ∀ token ∈ cursor.rest.head?, some token = none := by simp [hcursor.rest_eq_nil]
    rw [factor, factor, bind_of_eq_ok (takeIf_of_eq_none hnone)]
  refine local_loop (local_unmet _ _) hzero hzero ?_ length length'
  intro length length' ih
  refine local_takeIf_bind (local_unmet _ _) ?_
  rintro token _ ⟨⟩
  have hnested : Blind (min (length + 1) bound - 1) (min (length' + 1) bound' - 1) (factor length)
      (factor length') := ih.mono (by omega) (by omega)
  exact blind_factorFrom hnested token

theorem blind_expression : Blind bound bound' expression expression := by
  refine local_remaining_bind fun length _ length' _ => ?_
  have hfactor := (blind_factor length length').of_min (Nat.le_refl _) (Nat.le_refl _)
  exact blind_expressionOf hfactor

theorem blind_arguments (callee callee' : String) :
    Blind bound bound' (arguments callee) (arguments callee') := by
  refine local_remaining_bind fun length _ length' _ => ?_
  have hfactor := (blind_factor length length').of_min (Nat.le_refl _) (Nat.le_refl _)
  exact blind_argumentsOf (blind_expressionOf hfactor) callee callee'

end KawaiiLang.Parser
