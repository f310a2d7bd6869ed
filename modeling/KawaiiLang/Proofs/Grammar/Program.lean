import KawaiiLang.Proofs.Grammar.Statement

namespace KawaiiLang.Grammar

/-- One or more parameter names with commas between them. -/
inductive Names : List Token → List String → List Token → Prop where
  | last {token : Token} {rest : List Token} (htoken : token.kind = .identifier) :
      Names (token :: rest) [token.lexeme] rest
  | more {token comma : Token} {input rest : List Token} {others : List String}
      (htoken : token.kind = .identifier) (hcomma : comma.kind = .symbol .comma)
      (hothers : Names input others rest) :
      Names (token :: comma :: input) (token.lexeme :: others) rest

/-- The parameters of a function with their parentheses. -/
inductive Params : List Token → List String → List Token → Prop where
  | none {opening closing : Token} {rest : List Token}
      (hopening : opening.kind = .symbol .leftParen)
      (hclosing : closing.kind = .symbol .rightParen) :
      Params (opening :: closing :: rest) [] rest
  | some {opening closing : Token} {input rest : List Token} {names : List String}
      (hopening : opening.kind = .symbol .leftParen)
      (hnames : Names input names (closing :: rest))
      (hclosing : closing.kind = .symbol .rightParen) :
      Params (opening :: input) names rest

/-- What a function or the main entry runs: a block, or one statement with or without a
    semicolon. -/
inductive Entry : List Token → MainEntry → List Token → Prop where
  | block {input rest : List Token} {body : List Stmt}
      (hblock : Clause.block.Derives input body rest) : Entry input (.block body) rest
  | plain {input rest : List Token} {statement : Stmt}
      (hstatement : Clause.statement.Derives input statement rest) :
      Entry input (.single statement) rest
  | terminated {semicolon : Token} {input rest : List Token} {statement : Stmt}
      (hstatement : Clause.statement.Derives input statement (semicolon :: rest))
      (hsemicolon : semicolon.kind = .symbol .semicolon) :
      Entry input (.single statement) rest

/-- A function definition. Its parameters are pairwise distinct, and the arrow in front
    of its body may be left out. -/
inductive Definition : List Token → FunctionDef → List Token → Prop where
  | plain {token name : Token} {input middle rest : List Token} {params : List String}
      {entry : MainEntry} (htoken : token.kind = .keyword .kawaii)
      (hname : name.kind = .identifier) (hparams : Params input params middle)
      (hdistinct : params.Nodup) (hentry : Entry middle entry rest) :
      Definition (token :: name :: input)
        { name := name.lexeme, params, body := entry.body,
          span := spanOf token (name :: input) rest } rest
  | arrow {token name arrow : Token} {input middle rest : List Token} {params : List String}
      {entry : MainEntry} (htoken : token.kind = .keyword .kawaii)
      (hname : name.kind = .identifier) (hparams : Params input params (arrow :: middle))
      (harrow : arrow.kind = .symbol .arrow) (hdistinct : params.Nodup)
      (hentry : Entry middle entry rest) :
      Definition (token :: name :: input)
        { name := name.lexeme, params, body := entry.body,
          span := spanOf token (name :: input) rest } rest

/-- Function definitions one after the other. -/
inductive Definitions : List Token → List FunctionDef → List Token → Prop where
  | none {rest : List Token} : Definitions rest [] rest
  | more {input middle rest : List Token} {first : FunctionDef} {others : List FunctionDef}
      (hfirst : Definition input first middle) (hothers : Definitions middle others rest) :
      Definitions input (first :: others) rest

/-- All tokens as a program: nothing at all, or definitions and the main entry behind
    them. -/
inductive Whole : List Token → Program → Prop where
  | empty : Whole [] ⟨[], none⟩
  | main {token opening closing arrow : Token} {input middle : List Token}
      {functions : List FunctionDef} {entry : MainEntry}
      (hfunctions : Definitions input functions (token :: opening :: closing :: arrow :: middle))
      (htoken : token.kind = .keyword .uWuNyaa) (hopening : opening.kind = .symbol .leftParen)
      (hclosing : closing.kind = .symbol .rightParen) (harrow : arrow.kind = .symbol .arrow)
      (hentry : Entry middle entry []) :
      Whole input ⟨functions, some entry⟩

/-- A list of tokens derives a program if its last token marks the end and the tokens
    in front of it are the program. -/
def DerivesProgram (tokens : List Token) (program : Program) : Prop :=
  ∃ words stop, tokens = words ++ [stop] ∧ stop.kind = .endOfInput ∧ Whole words program

end KawaiiLang.Grammar
