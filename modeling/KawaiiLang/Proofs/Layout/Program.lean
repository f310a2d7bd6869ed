import KawaiiLang.Parse.Program
import KawaiiLang.Proofs.Layout.Statement

namespace KawaiiLang
namespace Parser

open Likeness (lockstep_pure)

theorem lockstep_param (function : String) (earlier : List String) :
    layout.Lockstep Eq (param function earlier) (param function earlier) := by
  refine (lockstep_expect .identifier .param).bind ?_
  intro token token' htoken
  rw [htoken.lexeme]
  split
  · exact lockstep_refuse htoken _
  · exact lockstep_pure rfl

theorem lockstep_moreParams (function : String) (earlier : List String) (bound : Nat) :
    layout.Lockstep Eq (moreParams function earlier bound) (moreParams function earlier bound) := by
  induction bound generalizing earlier with
  | zero =>
    refine (lockstep_param function earlier).bind ?_
    rintro name _ rfl
    exact lockstep_pure rfl
  | succ bound ih =>
    refine (lockstep_param function earlier).bind ?_
    rintro name _ rfl
    refine (lockstep_accept (.symbol .comma)).bind ?_
    intro comma comma' hcomma
    cases hcomma with
    | none => exact lockstep_pure rfl
    | some _ => exact ih _

theorem lockstep_params (function : String) :
    layout.Lockstep Eq (params function) (params function) := by
  refine lockstep_expect_bind _ _ ?_
  refine (lockstep_sees (.symbol .rightParen)).bind ?_
  rintro closed _ rfl
  cases closed with
  | true => exact lockstep_expect_bind _ _ (lockstep_pure rfl)
  | false =>
    refine lockstep_remaining.bind ?_
    rintro bound _ rfl
    refine (lockstep_moreParams function [] bound).bind ?_
    rintro names _ rfl
    exact lockstep_expect_bind _ _ (lockstep_pure rfl)

theorem lockstep_functionBody (function : String) :
    layout.Lockstep (List.Forall₂ Stmt.Relocated) (functionBody function)
      (functionBody function) := by
  refine (lockstep_accept (.symbol .leftBrace)).bind ?_
  intro brace brace' hbrace
  cases hbrace with
  | some _ => exact lockstep_blockOf lockstep_statement
  | none =>
    refine lockstep_seesStatement.bind ?_
    rintro begins _ rfl
    cases begins with
    | true =>
      refine (lockstep_terminated lockstep_statement).bind ?_
      intro statement statement' hstatement
      exact lockstep_pure (.cons hstatement .nil)
    | false => exact lockstep_unmet _

theorem lockstep_definition (first first' : Span) :
    layout.Lockstep FunctionDef.Relocated (definition first) (definition first') := by
  refine (lockstep_expect .identifier .functionName).bind ?_
  intro token token' htoken
  rw [htoken.lexeme]
  refine (lockstep_params token'.lexeme).bind ?_
  rintro params _ rfl
  refine (lockstep_accept (.symbol .arrow)).bind ?_
  intro _ _ _
  refine (lockstep_functionBody token'.lexeme).bind ?_
  intro body body' hbody
  exact lockstep_spanFrom _ _ fun _ _ => ⟨rfl, rfl, hbody⟩

theorem lockstep_definitions (bound : Nat) :
    layout.Lockstep (List.Forall₂ FunctionDef.Relocated) (definitions bound)
      (definitions bound) := by
  induction bound with
  | zero => exact lockstep_pure .nil
  | succ bound ih =>
    refine (lockstep_accept (.keyword .kawaii)).bind ?_
    intro keyword keyword' hkeyword
    cases hkeyword with
    | none => exact lockstep_pure .nil
    | some _ =>
      refine (lockstep_definition _ _).bind ?_
      intro first first' hfirst
      refine ih.bind ?_
      intro rest rest' hrest
      exact lockstep_pure (.cons hfirst hrest)

theorem lockstep_mainBody : layout.Lockstep MainEntry.Relocated mainBody mainBody := by
  refine (lockstep_accept (.symbol .leftBrace)).bind ?_
  intro brace brace' hbrace
  cases hbrace with
  | some _ =>
    refine (lockstep_blockOf lockstep_statement).bind ?_
    intro body body' hbody
    exact lockstep_pure (.block hbody)
  | none =>
    refine lockstep_seesStatement.bind ?_
    rintro begins _ rfl
    cases begins with
    | true =>
      refine (lockstep_terminated lockstep_statement).bind ?_
      intro statement statement' hstatement
      exact lockstep_pure (.single hstatement)
    | false => exact lockstep_unmet _

theorem lockstep_mainEntry : layout.Lockstep MainEntry.Relocated mainEntry mainEntry :=
  lockstep_expect_bind _ _ <| lockstep_expect_bind _ _ <| lockstep_expect_bind _ _ <|
    lockstep_expect_bind _ _ lockstep_mainBody

theorem lockstep_finished (expectation : Expectation) :
    layout.Lockstep Eq (finished expectation) (finished expectation) := by
  refine lockstep_atEnd.bind ?_
  rintro ended _ rfl
  cases ended with
  | true => exact lockstep_pure rfl
  | false => exact lockstep_unmet _

theorem lockstep_program : layout.Lockstep Program.Relocated program program := by
  refine lockstep_atEnd.bind ?_
  rintro ended _ rfl
  cases ended with
  | true => exact lockstep_pure ⟨.nil, .none⟩
  | false =>
    refine lockstep_remaining.bind ?_
    rintro bound _ rfl
    refine (lockstep_definitions bound).bind ?_
    intro functions functions' hfunctions
    refine lockstep_mainEntry.bind ?_
    intro main main' hmain
    refine (lockstep_finished .endAfterMain).bind ?_
    intro _ _ _
    exact lockstep_pure ⟨hfunctions, .some hmain⟩

end Parser

/-- The same words are read as the same program, or refused with the same fault at the same
    word. -/
inductive Program.ReadAlike : Except SyntaxError Program → Except SyntaxError Program → Prop where
  | ok {program program' : Program} (hprogram : program.Relocated program') :
      ReadAlike (.ok program) (.ok program')
  | error {error error' : SyntaxError} (herror : error.Relocated error') :
      ReadAlike (.error error) (.error error')

theorem Program.readAlike_ofTokens {tokens tokens' : List Token}
    (htokens : List.Forall₂ Token.Relocated tokens tokens') :
    ReadAlike (ofTokens tokens) (ofTokens tokens') := by
  have hresults := Parser.lockstep_program _ _ (Cursor.Relocated.ofTokens htokens)
  unfold ofTokens
  generalize Parser.program (.ofTokens tokens) = result at hresults
  generalize Parser.program (.ofTokens tokens') = result' at hresults
  cases hresults with
  | ok hprogram _ => exact .ok hprogram
  | error herror _ => exact .error herror

end KawaiiLang
