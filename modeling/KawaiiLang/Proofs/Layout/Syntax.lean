import Mathlib.Data.List.Forall2
import Mathlib.Data.Option.Basic
import KawaiiLang.Parse.SyntaxError
import KawaiiLang.Program.Basic

namespace KawaiiLang

namespace Token

/-- What a token says, whichever place it was read from. -/
def word (token : Token) : Kind × String × Option Literal :=
  (token.kind, token.lexeme, token.literal)

/-- The same word, perhaps read from another place. -/
structure Relocated (first second : Token) : Prop where
  kind : first.kind = second.kind
  lexeme : first.lexeme = second.lexeme
  literal : first.literal = second.literal

theorem relocated_of_word_eq {first second : Token} (hword : first.word = second.word) :
    first.Relocated second := by
  simp only [word, Prod.mk.injEq] at hword
  exact ⟨hword.1, hword.2.1, hword.2.2⟩

/-- The same words, token by token. -/
theorem forall₂_relocated_of_words_eq {tokens tokens' : List Token}
    (hwords : tokens.map word = tokens'.map word) : List.Forall₂ Relocated tokens tokens' := by
  rw [← List.forall₂_eq_eq_eq, List.forall₂_map_left_iff, List.forall₂_map_right_iff] at hwords
  exact hwords.imp fun _ _ => relocated_of_word_eq

end Token

/-- The same expression, perhaps read from another place. -/
inductive Expr.Relocated : Expr → Expr → Prop where
  | literal (value : Literal) (span span' : Span) :
      Relocated (.literal value span) (.literal value span')
  | name (name : String) (span span' : Span) : Relocated (.name name span) (.name name span')
  | unary (op : UnaryOp) {operand operand' : Expr} (span span' : Span)
      (hoperand : Relocated operand operand') :
      Relocated (.unary op operand span) (.unary op operand' span')
  | binary (op : BinaryOp) {left left' right right' : Expr} (span span' : Span)
      (hleft : Relocated left left') (hright : Relocated right right') :
      Relocated (.binary op left right span) (.binary op left' right' span')
  | group {inner inner' : Expr} (span span' : Span) (hinner : Relocated inner inner') :
      Relocated (.group inner span) (.group inner' span')
  | print {args args' : List Expr} (span span' : Span) (hargs : List.Forall₂ Relocated args args') :
      Relocated (.print args span) (.print args' span')
  | input (prompt : Option String) (span span' : Span) :
      Relocated (.input prompt span) (.input prompt span')
  | call (name : String) {args args' : List Expr} (span span' : Span)
      (hargs : List.Forall₂ Relocated args args') :
      Relocated (.call name args span) (.call name args' span')

mutual

/-- The same statement, perhaps read from another place. -/
inductive Stmt.Relocated : Stmt → Stmt → Prop where
  | pass (span span' : Span) : Stmt.Relocated (.pass span) (.pass span')
  | breakLoop (span span' : Span) : Stmt.Relocated (.breakLoop span) (.breakLoop span')
  | continueLoop (span span' : Span) : Stmt.Relocated (.continueLoop span) (.continueLoop span')
  | assign (target : String) {value value' : Expr} (span span' : Span)
      (hvalue : value.Relocated value') :
      Stmt.Relocated (.assign target value span) (.assign target value' span')
  | returnWith {value value' : Option Expr} (span span' : Span)
      (hvalue : Option.Rel Expr.Relocated value value') :
      Stmt.Relocated (.returnWith value span) (.returnWith value' span')
  | loop {condition condition' : Expr} {body body' : LoopBody} (span span' : Span)
      (hcondition : condition.Relocated condition') (hbody : LoopBody.Relocated body body') :
      Stmt.Relocated (.loop condition body span) (.loop condition' body' span')
  | branch {condition condition' : Expr} {body body' : List Stmt}
      {elifs elifs' : List (Expr × List Stmt)} {otherwise otherwise' : Option (List Stmt)}
      (span span' : Span) (hcondition : condition.Relocated condition')
      (hbody : List.Forall₂ Stmt.Relocated body body')
      (helifs : List.Forall₂ Branch.Relocated elifs elifs')
      (hotherwise : Option.Rel (List.Forall₂ Stmt.Relocated) otherwise otherwise') :
      Stmt.Relocated (.branch condition body elifs otherwise span)
        (.branch condition' body' elifs' otherwise' span')
  | guarded {body body' handler handler' : List Stmt} (span span' : Span)
      (hbody : List.Forall₂ Stmt.Relocated body body')
      (hhandler : List.Forall₂ Stmt.Relocated handler handler') :
      Stmt.Relocated (.guarded body handler span) (.guarded body' handler' span')
  | print {args args' : List Expr} (span span' : Span)
      (hargs : List.Forall₂ Expr.Relocated args args') :
      Stmt.Relocated (.print args span) (.print args' span')
  | input (prompt : Option String) (span span' : Span) :
      Stmt.Relocated (.input prompt span) (.input prompt span')
  | call (name : String) {args args' : List Expr} (span span' : Span)
      (hargs : List.Forall₂ Expr.Relocated args args') :
      Stmt.Relocated (.call name args span) (.call name args' span')
  | update (name : String) (op : UpdateOp) (span span' : Span) :
      Stmt.Relocated (.update name op span) (.update name op span')

/-- The same body of a loop. -/
inductive LoopBody.Relocated : LoopBody → LoopBody → Prop where
  | breakOnly : LoopBody.Relocated .breakOnly .breakOnly
  | continueOnly : LoopBody.Relocated .continueOnly .continueOnly
  | block {body body' : List Stmt} (hbody : List.Forall₂ Stmt.Relocated body body') :
      LoopBody.Relocated (.block body) (.block body')

/-- The same condition and the same block that depends on it. -/
inductive Branch.Relocated : Expr × List Stmt → Expr × List Stmt → Prop where
  | mk {condition condition' : Expr} {body body' : List Stmt}
      (hcondition : condition.Relocated condition')
      (hbody : List.Forall₂ Stmt.Relocated body body') :
      Branch.Relocated (condition, body) (condition', body')

end

/-- The same function. -/
structure FunctionDef.Relocated (first second : FunctionDef) : Prop where
  name : first.name = second.name
  params : first.params = second.params
  body : List.Forall₂ Stmt.Relocated first.body second.body

/-- The same main entry; one statement is not the same as a block of it. -/
inductive MainEntry.Relocated : MainEntry → MainEntry → Prop where
  | block {body body' : List Stmt} (hbody : List.Forall₂ Stmt.Relocated body body') :
      MainEntry.Relocated (.block body) (.block body')
  | single {statement statement' : Stmt} (hstatement : statement.Relocated statement') :
      MainEntry.Relocated (.single statement) (.single statement')

theorem MainEntry.Relocated.body {main main' : MainEntry} (hmain : main.Relocated main') :
    List.Forall₂ Stmt.Relocated main.body main'.body := by
  cases hmain with
  | block hbody => exact hbody
  | single hstatement => exact .cons hstatement .nil

/-- The same program. -/
structure Program.Relocated (first second : Program) : Prop where
  functions : List.Forall₂ FunctionDef.Relocated first.functions second.functions
  main : Option.Rel MainEntry.Relocated first.main second.main

end KawaiiLang
