import KawaiiLang.Program.Basic
import KawaiiLang.Proofs.Grammar.Expression

namespace KawaiiLang.Grammar

/-- Whether a return in front of `input` takes an expression: the next token can start
    one, does not print or read input, and is no name that begins an assignment or an
    update. Without this rule a return in front of a call could be read in two ways. -/
def TakesValue (input : List Token) : Prop :=
  ∃ (token : Token) (more : List Token), input = token :: more ∧ StartsExpression token.kind ∧
    token.kind ≠ .keyword .purinto ∧ token.kind ≠ .keyword .ohayo ∧
    ¬ (token.kind = .identifier ∧ ∃ next ∈ more.head?, next.kind = .keyword .asain ∨
      next.kind = .symbol .increment ∨ next.kind = .symbol .decrement)

/-- The nonterminals of the grammar from which statements are built. -/
inductive Clause where
  | statement
  | body
  /-- A body in its braces. -/
  | block
  | loopBody
  /-- The further conditions of a conditional. -/
  | elifs
  /-- The branch without a condition, if there is one. -/
  | otherwise

namespace Clause

/-- What a clause is read as. -/
@[reducible] def Tree : Clause → Type
  | statement => Stmt
  | body | block => List Stmt
  | loopBody => LoopBody
  | elifs => List (Expr × List Stmt)
  | otherwise => Option (List Stmt)

/-- The productions: `clause.Derives input tree rest` if the tokens of `input` in front
    of `rest` can be read as `clause`, and `tree` is what they are read as. Only the
    production of a return without a value looks at `rest`. -/
inductive Derives : (clause : Clause) → List Token → clause.Tree → List Token → Prop where
  | pass {token : Token} {rest : List Token} (htoken : token.kind = .keyword .pasu) :
      Derives statement (token :: rest) (.pass token.span) rest
  | breakLoop {token : Token} {rest : List Token} (htoken : token.kind = .keyword .yamete) :
      Derives statement (token :: rest) (.breakLoop token.span) rest
  | continueLoop {token : Token} {rest : List Token} (htoken : token.kind = .keyword .motto) :
      Derives statement (token :: rest) (.continueLoop token.span) rest
  | returnValue {token : Token} {input rest : List Token} {value : Expr}
      (htoken : token.kind = .keyword .sayonara) (htakes : TakesValue input)
      (hvalue : Phrase.expression.Derives input value rest) :
      Derives statement (token :: input) (.returnWith (some value) (spanOf token input rest)) rest
  | returnNothing {token : Token} {rest : List Token} (htoken : token.kind = .keyword .sayonara)
      (htakes : ¬ TakesValue rest) :
      Derives statement (token :: rest) (.returnWith none token.span) rest
  | assign {token sign : Token} {input rest : List Token} {value : Expr}
      (htoken : token.kind = .identifier) (hsign : sign.kind = .keyword .asain)
      (hvalue : Phrase.expression.Derives input value rest) :
      Derives statement (token :: sign :: input)
        (.assign token.lexeme value (token.span.through value.span)) rest
  | increment {token sign : Token} {rest : List Token} (htoken : token.kind = .identifier)
      (hsign : sign.kind = .symbol .increment) :
      Derives statement (token :: sign :: rest)
        (.update token.lexeme .increment (spanOf token (sign :: rest) rest)) rest
  | decrement {token sign : Token} {rest : List Token} (htoken : token.kind = .identifier)
      (hsign : sign.kind = .symbol .decrement) :
      Derives statement (token :: sign :: rest)
        (.update token.lexeme .decrement (spanOf token (sign :: rest) rest)) rest
  | call {token : Token} {input rest : List Token} {args : List Expr}
      (htoken : token.kind = .identifier) (hargs : Phrase.arguments.Derives input args rest) :
      Derives statement (token :: input) (.call token.lexeme args (spanOf token input rest)) rest
  | loop {token opening closing : Token} {input middle rest : List Token} {condition : Expr}
      {body : LoopBody} (htoken : token.kind = .keyword .nani)
      (hopening : opening.kind = .symbol .leftParen)
      (hcondition : Phrase.expression.Derives input condition (closing :: middle))
      (hclosing : closing.kind = .symbol .rightParen) (hbody : Derives loopBody middle body rest) :
      Derives statement (token :: opening :: input)
        (.loop condition body (spanOf token (opening :: input) rest)) rest
  | branch {token opening closing : Token} {input first second third rest : List Token}
      {condition : Expr} {body : List Stmt} {elifs : List (Expr × List Stmt)}
      {otherwise : Option (List Stmt)} (htoken : token.kind = .keyword .nyan)
      (hopening : opening.kind = .symbol .leftParen)
      (hcondition : Phrase.expression.Derives input condition (closing :: first))
      (hclosing : closing.kind = .symbol .rightParen) (hbody : Derives block first body second)
      (helifs : Derives Clause.elifs second elifs third)
      (hotherwise : Derives Clause.otherwise third otherwise rest) :
      Derives statement (token :: opening :: input)
        (.branch condition body elifs otherwise (spanOf token (opening :: input) rest)) rest
  | guarded {token handlerToken : Token} {input middle rest : List Token}
      {body handler : List Stmt} (htoken : token.kind = .keyword .ganbatte)
      (hbody : Derives block input body (handlerToken :: middle))
      (hhandlerToken : handlerToken.kind = .keyword .gomenasai)
      (hhandler : Derives block middle handler rest) :
      Derives statement (token :: input) (.guarded body handler (spanOf token input rest)) rest
  | print {token : Token} {input rest : List Token} {args : List Expr}
      (htoken : token.kind = .keyword .purinto)
      (hargs : Phrase.arguments.Derives input args rest) :
      Derives statement (token :: input) (.print args (spanOf token input rest)) rest
  | input {token : Token} {input rest : List Token} {text : Option String}
      (htoken : token.kind = .keyword .ohayo) (htext : Prompt input text rest) :
      Derives statement (token :: input) (.input text (spanOf token input rest)) rest
  | empty {rest : List Token} : Derives body rest [] rest
  | plain {input middle rest : List Token} {first : Stmt} {others : List Stmt}
      (hfirst : Derives statement input first middle)
      (hothers : Derives body middle others rest) :
      Derives body input (first :: others) rest
  | terminated {semicolon : Token} {input middle rest : List Token} {first : Stmt}
      {others : List Stmt} (hfirst : Derives statement input first (semicolon :: middle))
      (hsemicolon : semicolon.kind = .symbol .semicolon)
      (hothers : Derives body middle others rest) :
      Derives body input (first :: others) rest
  | block {opening closing : Token} {input rest : List Token} {statements : List Stmt}
      (hopening : opening.kind = .symbol .leftBrace)
      (hbody : Derives body input statements (closing :: rest))
      (hclosing : closing.kind = .symbol .rightBrace) :
      Derives block (opening :: input) statements rest
  | breakOnly {token : Token} {rest : List Token} (htoken : token.kind = .keyword .yamete) :
      Derives loopBody (token :: rest) .breakOnly rest
  | continueOnly {token : Token} {rest : List Token} (htoken : token.kind = .keyword .motto) :
      Derives loopBody (token :: rest) .continueOnly rest
  | loopBlock {input rest : List Token} {statements : List Stmt}
      (hblock : Derives block input statements rest) :
      Derives loopBody input (.block statements) rest
  | noElif {rest : List Token} : Derives elifs rest [] rest
  | elif {token opening closing : Token} {input first second rest : List Token}
      {condition : Expr} {body : List Stmt} {others : List (Expr × List Stmt)}
      (htoken : token.kind = .keyword .nyanyan) (hopening : opening.kind = .symbol .leftParen)
      (hcondition : Phrase.expression.Derives input condition (closing :: first))
      (hclosing : closing.kind = .symbol .rightParen) (hbody : Derives block first body second)
      (hothers : Derives elifs second others rest) :
      Derives elifs (token :: opening :: input) ((condition, body) :: others) rest
  | noOtherwise {rest : List Token} : Derives otherwise rest none rest
  | otherwise {token : Token} {input rest : List Token} {body : List Stmt}
      (htoken : token.kind = .keyword .baka) (hbody : Derives block input body rest) :
      Derives otherwise (token :: input) (some body) rest

theorem Derives.suffix {clause : Clause} {input rest : List Token} {tree : clause.Tree}
    (hclause : clause.Derives input tree rest) : rest <:+ input := by
  induction hclause with
  | pass | breakLoop | continueLoop | returnNothing | breakOnly | continueOnly =>
    exact List.suffix_cons _ _
  | returnValue _ _ hvalue => exact hvalue.suffix.trans (List.suffix_cons _ _)
  | assign _ _ hvalue =>
    exact hvalue.suffix.trans ((List.suffix_cons _ _).trans (List.suffix_cons _ _))
  | increment | decrement => exact (List.suffix_cons _ _).trans (List.suffix_cons _ _)
  | call _ hargs | print _ hargs => exact hargs.suffix.trans (List.suffix_cons _ _)
  | input _ htext => exact htext.suffix.trans (List.suffix_cons _ _)
  | loop _ _ hcondition _ _ ih =>
    have hpast := (List.suffix_cons _ _).trans hcondition.suffix
    exact (ih.trans hpast).trans ((List.suffix_cons _ _).trans (List.suffix_cons _ _))
  | branch _ _ hcondition _ _ _ _ ihbody ihelifs ihotherwise =>
    have hpast := (List.suffix_cons _ _).trans hcondition.suffix
    have hrest := ihotherwise.trans (ihelifs.trans (ihbody.trans hpast))
    exact hrest.trans ((List.suffix_cons _ _).trans (List.suffix_cons _ _))
  | elif _ _ hcondition _ _ _ ihbody ihothers =>
    have hpast := (List.suffix_cons _ _).trans hcondition.suffix
    have hrest := ihothers.trans (ihbody.trans hpast)
    exact hrest.trans ((List.suffix_cons _ _).trans (List.suffix_cons _ _))
  | guarded _ _ _ _ ihbody ihhandler =>
    have hpast := (List.suffix_cons _ _).trans ihbody
    exact (ihhandler.trans hpast).trans (List.suffix_cons _ _)
  | empty | noElif | noOtherwise => exact List.suffix_refl _
  | plain _ _ ihfirst ihothers => exact ihothers.trans ihfirst
  | terminated _ _ _ ihfirst ihothers =>
    exact ihothers.trans ((List.suffix_cons _ _).trans ihfirst)
  | block _ _ _ ih => exact ((List.suffix_cons _ _).trans ih).trans (List.suffix_cons _ _)
  | loopBlock _ ih => exact ih
  | otherwise _ _ ih => exact ih.trans (List.suffix_cons _ _)

end Clause
end KawaiiLang.Grammar
