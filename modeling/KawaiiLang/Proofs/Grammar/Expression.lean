import KawaiiLang.Program.Expr
import KawaiiLang.Token.Basic

namespace KawaiiLang.Grammar

/-- The span from `first` to the last token in front of `rest`, where `input` follows
    `first`. -/
def spanOf (first : Token) (input rest : List Token) : Span :=
  let read := (first :: input).take ((first :: input).length - rest.length)
  first.span.through (read.getLast?.getD first).span

theorem spanOf_append (first : Token) (read rest : List Token) :
    spanOf first (read ++ rest) rest = first.span.through (read.getLast?.getD first).span := by
  have hlength : (first :: (read ++ rest)).length - rest.length = (first :: read).length := by
    simp only [List.length_cons, List.length_append]
    omega
  have hread : (first :: (read ++ rest)).take (first :: read).length = first :: read :=
    List.take_left
  simp only [spanOf, hlength, hread, List.getLast?_cons, Option.getD_some]

/-- The operators that compare, which bind loosest. -/
def relationalOps : List (Token.Kind × BinaryOp) :=
  [(.symbol .equal, .equal), (.symbol .notEqual, .notEqual), (.symbol .less, .less),
    (.symbol .greater, .greater), (.symbol .lessEqual, .lessEqual),
    (.symbol .greaterEqual, .greaterEqual)]

/-- The operators of the middle tier. -/
def additiveOps : List (Token.Kind × BinaryOp) :=
  [(.symbol .plus, .add), (.symbol .minus, .subtract), (.keyword .or, .or)]

/-- The operators that bind tightest. -/
def multiplicativeOps : List (Token.Kind × BinaryOp) :=
  [(.symbol .star, .multiply), (.symbol .slash, .divide), (.keyword .and, .and)]

/-- What may stand between the parentheses of an input: a string literal or nothing. -/
inductive Prompt : List Token → Option String → List Token → Prop where
  | absent {opening closing : Token} {rest : List Token}
      (hopening : opening.kind = .symbol .leftParen)
      (hclosing : closing.kind = .symbol .rightParen) :
      Prompt (opening :: closing :: rest) none rest
  | given {opening token closing : Token} {text : String} {rest : List Token}
      (hopening : opening.kind = .symbol .leftParen) (hstring : token.kind = .string)
      (htext : token.literal = some (.str text))
      (hclosing : closing.kind = .symbol .rightParen) :
      Prompt (opening :: token :: closing :: rest) (some text) rest

theorem Prompt.suffix {input rest : List Token} {text : Option String}
    (hprompt : Prompt input text rest) : rest <:+ input := by
  cases hprompt with
  | absent => exact (List.suffix_cons _ _).trans (List.suffix_cons _ _)
  | given =>
    exact (List.suffix_cons _ _).trans ((List.suffix_cons _ _).trans (List.suffix_cons _ _))

/-- The nonterminals of the grammar from which expressions are built. -/
inductive Phrase where
  | expression
  | simple
  | term
  | factor
  /-- The arguments of a call with their parentheses. -/
  | arguments
  /-- One or more expressions with commas between them. -/
  | items

namespace Phrase

/-- What a phrase is read as. -/
@[reducible] def Tree : Phrase → Type
  | arguments | items => List Expr
  | expression | simple | term | factor => Expr

/-- The productions: `phrase.Derives input tree rest` if the tokens of `input` in front
    of `rest` can be read as `phrase`, and `tree` is what they are read as. Every tier
    of operators groups to the right. An operator joins the spans of its operands, and
    any other node spans the tokens it was read from. -/
inductive Derives : (phrase : Phrase) → List Token → phrase.Tree → List Token → Prop where
  | expression {input rest : List Token} {value : Expr}
      (hvalue : Derives simple input value rest) :
      Derives expression input value rest
  | comparison {input middle rest : List Token} {left right : Expr} {token : Token}
      {op : BinaryOp} (hleft : Derives simple input left (token :: middle))
      (hop : (token.kind, op) ∈ relationalOps) (hright : Derives expression middle right rest) :
      Derives expression input (.binary op left right (left.span.through right.span)) rest
  | simple {input rest : List Token} {value : Expr} (hvalue : Derives term input value rest) :
      Derives simple input value rest
  | sum {input middle rest : List Token} {left right : Expr} {token : Token} {op : BinaryOp}
      (hleft : Derives term input left (token :: middle)) (hop : (token.kind, op) ∈ additiveOps)
      (hright : Derives simple middle right rest) :
      Derives simple input (.binary op left right (left.span.through right.span)) rest
  | term {input rest : List Token} {value : Expr} (hvalue : Derives factor input value rest) :
      Derives term input value rest
  | product {input middle rest : List Token} {left right : Expr} {token : Token} {op : BinaryOp}
      (hleft : Derives factor input left (token :: middle))
      (hop : (token.kind, op) ∈ multiplicativeOps) (hright : Derives term middle right rest) :
      Derives term input (.binary op left right (left.span.through right.span)) rest
  | negation {token : Token} {input rest : List Token} {operand : Expr}
      (htoken : token.kind = .symbol .minus) (hoperand : Derives factor input operand rest) :
      Derives factor (token :: input)
        (.unary .negate operand (token.span.through operand.span)) rest
  | complement {token : Token} {input rest : List Token} {operand : Expr}
      (htoken : token.kind = .keyword .not) (hoperand : Derives factor input operand rest) :
      Derives factor (token :: input) (.unary .not operand (token.span.through operand.span)) rest
  | group {token closing : Token} {input rest : List Token} {inner : Expr}
      (htoken : token.kind = .symbol .leftParen)
      (hinner : Derives expression input inner (closing :: rest))
      (hclosing : closing.kind = .symbol .rightParen) :
      Derives factor (token :: input) (.group inner (spanOf token input rest)) rest
  | call {token : Token} {input rest : List Token} {args : List Expr}
      (htoken : token.kind = .identifier) (hargs : Derives arguments input args rest) :
      Derives factor (token :: input) (.call token.lexeme args (spanOf token input rest)) rest
  | print {token : Token} {input rest : List Token} {args : List Expr}
      (htoken : token.kind = .keyword .purinto) (hargs : Derives arguments input args rest) :
      Derives factor (token :: input) (.print args (spanOf token input rest)) rest
  | input {token : Token} {input rest : List Token} {text : Option String}
      (htoken : token.kind = .keyword .ohayo) (htext : Prompt input text rest) :
      Derives factor (token :: input) (.input text (spanOf token input rest)) rest
  | name {token : Token} {rest : List Token} (htoken : token.kind = .identifier) :
      Derives factor (token :: rest) (.name token.lexeme token.span) rest
  | hai {token : Token} {rest : List Token} (htoken : token.kind = .keyword .hai) :
      Derives factor (token :: rest) (.literal (.bool true) token.span) rest
  | iie {token : Token} {rest : List Token} (htoken : token.kind = .keyword .iie) :
      Derives factor (token :: rest) (.literal (.bool false) token.span) rest
  | integer {token : Token} {rest : List Token} {value : Int64} (htoken : token.kind = .integer)
      (hvalue : token.literal = some (.int value)) :
      Derives factor (token :: rest) (.literal (.int value) token.span) rest
  | float {token : Token} {rest : List Token} {value : Float} (htoken : token.kind = .float)
      (hvalue : token.literal = some (.float value)) :
      Derives factor (token :: rest) (.literal (.float value) token.span) rest
  | string {token : Token} {rest : List Token} {value : String} (htoken : token.kind = .string)
      (hvalue : token.literal = some (.str value)) :
      Derives factor (token :: rest) (.literal (.str value) token.span) rest
  | noArguments {opening closing : Token} {rest : List Token}
      (hopening : opening.kind = .symbol .leftParen)
      (hclosing : closing.kind = .symbol .rightParen) :
      Derives arguments (opening :: closing :: rest) [] rest
  | arguments {opening closing : Token} {input rest : List Token} {args : List Expr}
      (hopening : opening.kind = .symbol .leftParen)
      (hitems : Derives items input args (closing :: rest))
      (hclosing : closing.kind = .symbol .rightParen) :
      Derives arguments (opening :: input) args rest
  | item {input rest : List Token} {value : Expr} (hvalue : Derives expression input value rest) :
      Derives items input [value] rest
  | items {input middle rest : List Token} {comma : Token} {value : Expr} {values : List Expr}
      (hvalue : Derives expression input value (comma :: middle))
      (hcomma : comma.kind = .symbol .comma) (hvalues : Derives items middle values rest) :
      Derives items input (value :: values) rest

/-- A phrase has a first token, and that token can start an expression. -/
theorem Derives.exists_cons {phrase : Phrase} {input rest : List Token} {tree : phrase.Tree}
    (hphrase : phrase.Derives input tree rest) :
    ∃ token more, input = token :: more ∧ token.kind.startsExpression = true ∧ rest <:+ more := by
  induction hphrase with
  | expression _ ih | simple _ ih | term _ ih | item _ ih => exact ih
  | comparison _ _ _ ihleft ihright | sum _ _ _ ihleft ihright | product _ _ _ ihleft ihright
  | items _ _ _ ihleft ihright =>
    obtain ⟨token, more, hinput, hstart, hmiddle⟩ := ihleft
    obtain ⟨_, _, rfl, _, hrest⟩ := ihright
    have hpast := (List.suffix_cons _ _).trans ((List.suffix_cons _ _).trans hmiddle)
    exact ⟨token, more, hinput, hstart, hrest.trans hpast⟩
  | negation htoken _ ih | complement htoken _ ih | call htoken _ ih | print htoken _ ih =>
    obtain ⟨_, _, rfl, _, hrest⟩ := ih
    exact ⟨_, _, rfl, by rw [htoken]; rfl, hrest.trans (List.suffix_cons _ _)⟩
  | group htoken _ _ ih | arguments htoken _ _ ih =>
    obtain ⟨_, _, rfl, _, hrest⟩ := ih
    have hclosing := (List.suffix_cons _ _).trans hrest
    exact ⟨_, _, rfl, by rw [htoken]; rfl, hclosing.trans (List.suffix_cons _ _)⟩
  | input htoken htext => exact ⟨_, _, rfl, by rw [htoken]; rfl, htext.suffix⟩
  | name htoken | hai htoken | iie htoken | integer htoken | float htoken | string htoken =>
    exact ⟨_, _, rfl, by rw [htoken]; rfl, List.suffix_refl _⟩
  | noArguments htoken =>
    exact ⟨_, _, rfl, by rw [htoken]; rfl, List.suffix_cons _ _⟩

theorem Derives.suffix {phrase : Phrase} {input rest : List Token} {tree : phrase.Tree}
    (hphrase : phrase.Derives input tree rest) : rest <:+ input := by
  obtain ⟨token, more, rfl, _, hrest⟩ := hphrase.exists_cons
  exact hrest.trans (List.suffix_cons token more)

theorem Derives.exists_opening {input rest : List Token} {args : List Expr}
    (hargs : Phrase.arguments.Derives input args rest) :
    ∃ opening more, input = opening :: more ∧ opening.kind = .symbol .leftParen := by
  cases hargs with
  | noArguments hopening => exact ⟨_, _, rfl, hopening⟩
  | arguments hopening => exact ⟨_, _, rfl, hopening⟩

end Phrase

/-- Whether some expression begins with a token of this kind. -/
def StartsExpression (kind : Token.Kind) : Prop :=
  ∃ (token : Token) (input rest : List Token) (value : Expr),
    token.kind = kind ∧ Phrase.expression.Derives (token :: input) value rest

theorem StartsExpression.of_factor (token : Token) (rest : List Token) {input : List Token}
    {value : Expr} (hfactor : Phrase.factor.Derives (token :: input) value rest) :
    StartsExpression token.kind :=
  ⟨token, input, rest, value, rfl, .expression (.simple (.term hfactor))⟩

/-- The kinds of tokens that start an expression are just those that are taken to. -/
theorem startsExpression_iff {kind : Token.Kind} :
    StartsExpression kind ↔ kind.startsExpression = true := by
  constructor
  · rintro ⟨token, input, rest, value, rfl, hvalue⟩
    obtain ⟨_, _, hinput, hstart, _⟩ := hvalue.exists_cons
    cases hinput
    exact hstart
  · intro hstart
    -- For each kind a token of it, and words that make an expression with that token.
    let word (kind : Token.Kind) (literal : Option Literal) : Token :=
      { kind, lexeme := "", literal, span := default, position := default }
    let opening := word (.symbol .leftParen) none
    let closing := word (.symbol .rightParen) none
    have hname (rest : List Token) : Phrase.factor.Derives (word .identifier none :: rest) _ rest :=
      .name rfl
    have hgroup : Phrase.expression.Derives [word .identifier none, closing] _ [closing] :=
      .expression (.simple (.term (hname _)))
    have hargs : Phrase.arguments.Derives [opening, closing] [] [] := .noArguments rfl rfl
    have hprompt : Prompt [opening, closing] none [] := .absent rfl rfl
    unfold Token.Kind.startsExpression at hstart
    split at hstart
    · exact .of_factor (word (.symbol .minus) none) [] (.negation rfl (hname []))
    · exact .of_factor opening [] (.group rfl hgroup rfl)
    · exact .of_factor (word (.keyword .not) none) [] (.complement rfl (hname []))
    · exact .of_factor (word (.keyword .hai) none) [] (.hai rfl)
    · exact .of_factor (word (.keyword .iie) none) [] (.iie rfl)
    · exact .of_factor (word (.keyword .purinto) none) [] (.print rfl hargs)
    · exact .of_factor (word (.keyword .ohayo) none) [] (.input rfl hprompt)
    · exact .of_factor (word .identifier none) [] (hname [])
    · exact .of_factor (word .string (some (.str ""))) [] (.string rfl rfl)
    · exact .of_factor (word .integer (some (.int 0))) [] (.integer rfl rfl)
    · exact .of_factor (word .float (some (.float 0))) [] (.float rfl rfl)
    · cases hstart

end KawaiiLang.Grammar
