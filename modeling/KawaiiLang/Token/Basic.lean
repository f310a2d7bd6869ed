import KawaiiLang.Literal
import KawaiiLang.Text.Span
import KawaiiLang.Text.Position
import KawaiiLang.Token.Symbol
import KawaiiLang.Token.Keyword

namespace KawaiiLang

/-- What a token is, apart from its text. -/
inductive Token.Kind where
  | symbol (symbol : Symbol)
  | keyword (keyword : Keyword)
  | identifier
  | string
  | integer
  | float
  /-- Marks the end of the input; no text belongs to it. -/
  | endOfInput
  deriving DecidableEq, Inhabited

/-- Whether an expression can begin with a token of this kind. -/
def Token.Kind.startsExpression : Token.Kind → Bool
  | symbol .minus | symbol .leftParen => true
  | keyword .not | keyword .hai | keyword .iie | keyword .purinto | keyword .ohayo => true
  | identifier | string | integer | float => true
  | _ => false

/-- A word of the program with the place it was read from. Tokens may also be
    handed in from outside, so nothing ties `literal` to `kind`. -/
structure Token where
  kind : Token.Kind
  /-- The text of the token as it was written. -/
  lexeme : String
  /-- What the text of a number or string stands for. -/
  literal : Option Literal
  span : Span
  position : Position
  deriving DecidableEq, Inhabited

namespace Token

/-- How a message refers to the token. -/
def describe (token : Token) : String :=
  if token.kind = .endOfInput then "end of input" else s!"'{token.lexeme}'"

/-- The token that ends a text which has been read up to `mark`. -/
def endAt (mark : Mark) : Token :=
  { kind := .endOfInput, lexeme := "", literal := none,
    span := .single mark.offset, position := mark.position }

end Token
end KawaiiLang
