import KawaiiLang.Parse.Expression
import KawaiiLang.Proofs.Layout.Cursor

namespace KawaiiLang.Parser

open Likeness (lockstep_pure)

section

variable {operand operand' : Parser Expr} (hoperand : layout.Lockstep Expr.Relocated operand operand')
include hoperand

theorem lockstep_chain (operator : Token.Kind → Option BinaryOp) (bound : Nat) :
    layout.Lockstep Expr.Relocated (chain operator operand bound)
      (chain operator operand' bound) := by
  induction bound with
  | zero => exact hoperand
  | succ bound ih =>
    refine hoperand.bind ?_
    intro left left' hleft
    refine (lockstep_takeIf_kind operator).bind ?_
    intro found found' hfound
    cases hfound with
    | none => exact lockstep_pure hleft
    | some hop =>
      cases hop
      refine ih.bind ?_
      intro right right' hright
      exact lockstep_pure (.binary _ _ _ hleft hright)

theorem lockstep_tier (operator : Token.Kind → Option BinaryOp) :
    layout.Lockstep Expr.Relocated (tier operator operand) (tier operator operand') := by
  refine lockstep_remaining.bind ?_
  rintro bound _ rfl
  exact lockstep_chain hoperand operator bound

theorem lockstep_expressionOf :
    layout.Lockstep Expr.Relocated (expressionOf operand) (expressionOf operand') :=
  lockstep_tier (lockstep_tier (lockstep_tier hoperand multiplicative) additive) relational

theorem lockstep_commaSeparated (bound : Nat) :
    layout.Lockstep (List.Forall₂ Expr.Relocated) (commaSeparated operand bound)
      (commaSeparated operand' bound) := by
  induction bound with
  | zero =>
    refine hoperand.bind ?_
    intro first first' hfirst
    exact lockstep_pure (.cons hfirst .nil)
  | succ bound ih =>
    refine hoperand.bind ?_
    intro first first' hfirst
    refine (lockstep_accept (.symbol .comma)).bind ?_
    intro comma comma' hcomma
    cases hcomma with
    | none => exact lockstep_pure (.cons hfirst .nil)
    | some _ =>
      refine ih.bind ?_
      intro rest rest' hrest
      exact lockstep_pure (.cons hfirst hrest)

theorem lockstep_argumentsOf (callee : String) :
    layout.Lockstep (List.Forall₂ Expr.Relocated) (argumentsOf operand callee)
      (argumentsOf operand' callee) := by
  refine lockstep_expect_bind _ _ ?_
  refine (lockstep_sees (.symbol .rightParen)).bind ?_
  rintro closed _ rfl
  cases closed with
  | true => exact lockstep_expect_bind _ _ (lockstep_pure .nil)
  | false =>
    refine lockstep_remaining.bind ?_
    rintro bound _ rfl
    refine (lockstep_commaSeparated hoperand bound).bind ?_
    intro args args' hargs
    exact lockstep_expect_bind _ _ (lockstep_pure hargs)

end

theorem lockstep_prompt : layout.Lockstep Eq prompt prompt := by
  refine lockstep_expect_bind _ _ ?_
  refine (lockstep_accept .string).bind ?_
  intro found found' hfound
  have hclose (text : Option String) :
      layout.Lockstep Eq (expect (.symbol .rightParen) .promptClose >>= fun _ => pure text)
        (expect (.symbol .rightParen) .promptClose >>= fun _ => pure text) :=
    lockstep_expect_bind _ _ (lockstep_pure rfl)
  cases hfound with
  | none => exact hclose none
  | @some token token' htoken =>
    obtain ⟨kind, lexeme, literal, span, position⟩ := token
    obtain ⟨kind', lexeme', literal', span', position'⟩ := token'
    obtain ⟨_, _, rfl⟩ := htoken
    cases literal with
    | none => exact hclose (some "")
    | some value =>
      cases value with
      | str text => exact hclose (some text)
      | int | float | bool => exact hclose (some "")

theorem lockstep_factorFrom {nested nested' : Parser Expr}
    (hnested : layout.Lockstep Expr.Relocated nested nested') {token token' : Token} (htoken : token.Relocated token') :
    layout.Lockstep Expr.Relocated (factorFrom nested token) (factorFrom nested' token') := by
  have hinner := lockstep_expressionOf hnested
  unfold factorFrom
  rw [htoken.kind, htoken.lexeme, htoken.literal]
  split
  -- An operator in front of its operand.
  · refine hnested.bind ?_
    intro operand operand' hoperand
    exact lockstep_pure (.unary _ _ _ hoperand)
  · refine hnested.bind ?_
    intro operand operand' hoperand
    exact lockstep_pure (.unary _ _ _ hoperand)
  -- Parentheses.
  · refine hinner.bind ?_
    intro inner inner' hinner
    exact lockstep_expect_bind _ _ (lockstep_spanFrom _ _ fun _ _ => .group _ _ hinner)
  -- A name, or a call of it.
  · refine (lockstep_sees (.symbol .leftParen)).bind ?_
    rintro opened _ rfl
    cases opened with
    | true =>
      refine (lockstep_argumentsOf hinner _).bind ?_
      intro args args' hargs
      exact lockstep_spanFrom _ _ fun _ _ => .call _ _ _ hargs
    | false => exact lockstep_pure (.name _ _ _)
  -- Output and input.
  · refine (lockstep_argumentsOf hinner _).bind ?_
    intro args args' hargs
    exact lockstep_spanFrom _ _ fun _ _ => .print _ _ hargs
  · refine lockstep_prompt.bind ?_
    rintro prompt _ rfl
    exact lockstep_spanFrom _ _ fun _ _ => .input _ _ _
  -- The two truth values, and the constants that carry a value of their own.
  · exact lockstep_pure (.literal _ _ _)
  · exact lockstep_pure (.literal _ _ _)
  iterate 3
    · split
      · exact lockstep_pure (.literal _ _ _)
      · exact lockstep_refuse htoken _
  · exact lockstep_refuse htoken _

theorem lockstep_factor (bound : Nat) :
    layout.Lockstep Expr.Relocated (factor bound) (factor bound) := by
  induction bound with
  | zero => exact lockstep_unmet _
  | succ bound ih =>
    refine lockstep_takeIf_some.bind ?_
    intro found found' hfound
    cases hfound with
    | none => exact lockstep_unmet _
    | some htoken => exact lockstep_factorFrom ih htoken

theorem lockstep_expression : layout.Lockstep Expr.Relocated expression expression := by
  refine lockstep_remaining.bind ?_
  rintro bound _ rfl
  exact lockstep_expressionOf (lockstep_factor bound)

theorem lockstep_arguments (callee : String) :
    layout.Lockstep (List.Forall₂ Expr.Relocated) (arguments callee) (arguments callee) := by
  refine lockstep_remaining.bind ?_
  rintro bound _ rfl
  exact lockstep_argumentsOf (lockstep_expressionOf (lockstep_factor bound)) callee

end KawaiiLang.Parser
