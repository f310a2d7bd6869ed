import KawaiiLang.Parse.Statement
import KawaiiLang.Proofs.Layout.Expression

namespace KawaiiLang

theorem Cursor.Relocated.atReturnValue_eq {first second : Cursor}
    (hcursor : first.Relocated second) : first.atReturnValue = second.atReturnValue := by
  rw [Cursor.atReturnValue, Cursor.atReturnValue, hcursor.current.kind, hcursor.atNameStatement_eq]

namespace Parser

open Likeness (lockstep_pure lockstep_get)

theorem lockstep_seesStatement : layout.Lockstep Eq seesStatement seesStatement := by
  refine lockstep_get.bind ?_
  intro cursor cursor' hcursor
  refine lockstep_pure ?_
  rw [hcursor.current.kind]

section

-- How the statements inside a statement are read on either side.
variable {nested nested' : Parser Stmt} (hnested : layout.Lockstep Stmt.Relocated nested nested')
include hnested

theorem lockstep_terminated :
    layout.Lockstep Stmt.Relocated (terminated nested) (terminated nested') := by
  refine hnested.bind ?_
  intro first first' hfirst
  refine (lockstep_accept (.symbol .semicolon)).bind ?_
  intro _ _ _
  exact lockstep_pure hfirst

theorem lockstep_sequence (bound : Nat) :
    layout.Lockstep (List.Forall₂ Stmt.Relocated) (sequence nested bound)
      (sequence nested' bound) := by
  induction bound with
  | zero => exact lockstep_pure .nil
  | succ bound ih =>
    refine lockstep_seesStatement.bind ?_
    rintro begins _ rfl
    cases begins with
    | true =>
      refine (lockstep_terminated hnested).bind ?_
      intro first first' hfirst
      refine ih.bind ?_
      intro rest rest' hrest
      exact lockstep_pure (.cons hfirst hrest)
    | false => exact lockstep_pure .nil

theorem lockstep_bodyOf :
    layout.Lockstep (List.Forall₂ Stmt.Relocated) (bodyOf nested) (bodyOf nested') := by
  refine lockstep_remaining.bind ?_
  rintro bound _ rfl
  exact lockstep_sequence hnested bound

theorem lockstep_blockOf :
    layout.Lockstep (List.Forall₂ Stmt.Relocated) (blockOf nested) (blockOf nested') := by
  refine (lockstep_bodyOf hnested).bind ?_
  intro body body' hbody
  exact lockstep_expect_bind _ _ (lockstep_pure hbody)

theorem lockstep_branchOf (keyword : Keyword) :
    layout.Lockstep Branch.Relocated (branchOf nested keyword) (branchOf nested' keyword) := by
  refine lockstep_expect_bind _ _ ?_
  refine lockstep_expression.bind ?_
  intro condition condition' hcondition
  refine lockstep_expect_bind _ _ (lockstep_expect_bind _ _ ?_)
  refine (lockstep_blockOf hnested).bind ?_
  intro body body' hbody
  exact lockstep_pure (.mk hcondition hbody)

theorem lockstep_elifsOf (bound : Nat) :
    layout.Lockstep (List.Forall₂ Branch.Relocated) (elifsOf nested bound)
      (elifsOf nested' bound) := by
  induction bound with
  | zero => exact lockstep_pure .nil
  | succ bound ih =>
    refine (lockstep_accept (.keyword .nyanyan)).bind ?_
    intro found found' hfound
    cases hfound with
    | none => exact lockstep_pure .nil
    | some _ =>
      refine (lockstep_branchOf hnested .nyanyan).bind ?_
      intro first first' hfirst
      refine ih.bind ?_
      intro rest rest' hrest
      exact lockstep_pure (.cons hfirst hrest)

theorem lockstep_otherwiseOf :
    layout.Lockstep (Option.Rel (List.Forall₂ Stmt.Relocated)) (otherwiseOf nested)
      (otherwiseOf nested') := by
  refine (lockstep_accept (.keyword .baka)).bind ?_
  intro found found' hfound
  cases hfound with
  | none => exact lockstep_pure .none
  | some _ =>
    refine lockstep_expect_bind _ _ ?_
    refine (lockstep_blockOf hnested).bind ?_
    intro body body' hbody
    exact lockstep_pure (.some hbody)

theorem lockstep_loopBodyOf :
    layout.Lockstep LoopBody.Relocated (loopBodyOf nested) (loopBodyOf nested') := by
  refine (lockstep_accept (.keyword .yamete)).bind ?_
  intro found found' hfound
  cases hfound with
  | some _ => exact lockstep_pure .breakOnly
  | none =>
    refine (lockstep_accept (.keyword .motto)).bind ?_
    intro found found' hfound
    cases hfound with
    | some _ => exact lockstep_pure .continueOnly
    | none =>
      refine lockstep_expect_bind _ _ ?_
      refine (lockstep_blockOf hnested).bind ?_
      intro body body' hbody
      exact lockstep_pure (.block hbody)

theorem lockstep_loopOf (first first' : Span) :
    layout.Lockstep Stmt.Relocated (loopOf nested first) (loopOf nested' first') := by
  refine lockstep_expect_bind _ _ ?_
  refine lockstep_expression.bind ?_
  intro condition condition' hcondition
  refine lockstep_expect_bind _ _ ?_
  refine (lockstep_loopBodyOf hnested).bind ?_
  intro body body' hbody
  exact lockstep_spanFrom _ _ fun _ _ => .loop _ _ hcondition hbody

theorem lockstep_conditionalOf (first first' : Span) :
    layout.Lockstep Stmt.Relocated (conditionalOf nested first) (conditionalOf nested' first') := by
  refine (lockstep_branchOf hnested .nyan).bind ?_
  rintro _ _ ⟨hcondition, hbody⟩
  refine lockstep_remaining.bind ?_
  rintro bound _ rfl
  refine (lockstep_elifsOf hnested bound).bind ?_
  intro elifs elifs' helifs
  refine (lockstep_otherwiseOf hnested).bind ?_
  intro otherwise otherwise' hotherwise
  exact lockstep_spanFrom _ _ fun _ _ => .branch _ _ hcondition hbody helifs hotherwise

theorem lockstep_guardedOf (first first' : Span) :
    layout.Lockstep Stmt.Relocated (guardedOf nested first) (guardedOf nested' first') := by
  refine lockstep_expect_bind _ _ ?_
  refine (lockstep_blockOf hnested).bind ?_
  intro body body' hbody
  refine lockstep_expect_bind _ _ (lockstep_expect_bind _ _ ?_)
  refine (lockstep_blockOf hnested).bind ?_
  intro handler handler' hhandler
  exact lockstep_spanFrom _ _ fun _ _ => .guarded _ _ hbody hhandler

end

theorem lockstep_returnAt (first first' : Span) :
    layout.Lockstep Stmt.Relocated (returnAt first) (returnAt first') := by
  refine lockstep_get.bind ?_
  intro cursor cursor' hcursor
  rw [hcursor.atReturnValue_eq]
  split
  · refine lockstep_expression.bind ?_
    intro value value' hvalue
    exact lockstep_spanFrom _ _ fun _ _ => .returnWith _ _ (.some hvalue)
  · exact lockstep_pure (.returnWith _ _ .none)

theorem lockstep_nameStatement {name name' : Token} (hname : name.Relocated name') :
    layout.Lockstep Stmt.Relocated (nameStatement name) (nameStatement name') := by
  unfold nameStatement
  rw [hname.lexeme]
  refine (lockstep_accept (.keyword .asain)).bind ?_
  intro found found' hfound
  cases hfound with
  | some _ =>
    refine lockstep_expression.bind ?_
    intro value value' hvalue
    exact lockstep_pure (.assign _ _ _ hvalue)
  | none =>
    refine (lockstep_takeIf_kind updateOp).bind ?_
    intro found found' hfound
    cases hfound with
    | some hop =>
      cases hop
      exact lockstep_spanFrom _ _ fun _ _ => .update _ _ _ _
    | none =>
      refine (lockstep_sees (.symbol .leftParen)).bind ?_
      rintro opened _ rfl
      cases opened with
      | true =>
        refine (lockstep_arguments name'.lexeme).bind ?_
        intro args args' hargs
        exact lockstep_spanFrom _ _ fun _ _ => .call _ _ _ hargs
      | false => exact lockstep_unmet _

theorem lockstep_statementFrom {nested nested' : Parser Stmt}
    (hnested : layout.Lockstep Stmt.Relocated nested nested') {token token' : Token}
    (htoken : token.Relocated token') :
    layout.Lockstep Stmt.Relocated (statementFrom nested token) (statementFrom nested' token') := by
  unfold statementFrom
  rw [htoken.kind]
  split
  · exact lockstep_pure (.pass _ _)
  · exact lockstep_pure (.breakLoop _ _)
  · exact lockstep_pure (.continueLoop _ _)
  · exact lockstep_returnAt _ _
  · exact lockstep_loopOf hnested _ _
  · exact lockstep_conditionalOf hnested _ _
  · exact lockstep_guardedOf hnested _ _
  · refine (lockstep_arguments _).bind ?_
    intro args args' hargs
    exact lockstep_spanFrom _ _ fun _ _ => .print _ _ hargs
  · refine lockstep_prompt.bind ?_
    rintro prompt _ rfl
    exact lockstep_spanFrom _ _ fun _ _ => .input _ _ _
  · exact lockstep_nameStatement htoken
  · exact lockstep_refuse htoken _

theorem lockstep_nestedStatement (bound : Nat) :
    layout.Lockstep Stmt.Relocated (nestedStatement bound) (nestedStatement bound) := by
  induction bound with
  | zero => exact lockstep_unmet _
  | succ bound ih =>
    refine lockstep_takeIf_some.bind ?_
    intro found found' hfound
    cases hfound with
    | none => exact lockstep_unmet _
    | some htoken => exact lockstep_statementFrom ih htoken

theorem lockstep_statement : layout.Lockstep Stmt.Relocated statement statement := by
  refine lockstep_remaining.bind ?_
  rintro bound _ rfl
  exact lockstep_nestedStatement bound

end Parser
end KawaiiLang
