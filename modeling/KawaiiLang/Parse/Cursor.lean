import KawaiiLang.Parse.SyntaxError

namespace KawaiiLang

/-- A list of tokens that is being read. Nothing behind the first end mark can
    ever be reached, so the cursor does not keep it. -/
structure Cursor where
  /-- The token read last, if any has been read. -/
  last : Option Token
  /-- The tokens still to be read, without the end mark. -/
  rest : List Token
  /-- The end mark. -/
  stop : Token
  deriving Inhabited

namespace Cursor

/-- A cursor in front of `tokens`, which should hold an end mark. -/
def ofTokens (tokens : List Token) : Cursor :=
  let isEnd := fun token : Token => decide (token.kind = .endOfInput)
  ⟨none, tokens.takeWhile (! isEnd ·), (tokens.find? isEnd).getD (.endAt .start)⟩

/-- The token to be read next; at the end this is the end mark. -/
def current (cursor : Cursor) : Token :=
  cursor.rest.headD cursor.stop

/-- The token behind the current one. -/
def following (cursor : Cursor) : Token :=
  cursor.rest.tail.headD cursor.stop

/-- The span of the token read last. Before the first token there is none, and the
    current one stands in. -/
def lastSpan (cursor : Cursor) : Span :=
  (cursor.last.getD cursor.current).span

/-- Where an error about the current token is shown. The end mark has no text of
    its own, so an error at it is shown just behind the last token. -/
def errorSpan (cursor : Cursor) : Span :=
  match cursor.rest, cursor.last with
  | [], some last => .single last.span.stop
  | _, _ => cursor.current.span

/-- Whether the current token is a name that begins an assignment or an update, and
    so no expression. -/
def atNameStatement (cursor : Cursor) : Bool :=
  cursor.current.kind = .identifier &&
    (match cursor.following.kind with
    | .keyword .asain | .symbol .increment | .symbol .decrement => true
    | _ => false)

end Cursor

/-- A step of reading: it moves a cursor and gives a result or an error. The cursor
    is kept in both cases, because a reader may be used again after an error. -/
abbrev Parser :=
  EStateM SyntaxError Cursor

namespace Parser

/-- The number of tokens left, which bounds every recursion of the grammar. -/
def remaining : Parser Nat := do
  return (← get).rest.length

/-- Whether all tokens have been read. -/
def atEnd : Parser Bool := do
  return (← get).rest.isEmpty

/-- Whether a token of the given kind comes next. -/
def sees (kind : Token.Kind) : Parser Bool := do
  return (← get).rest.head?.any (·.kind = kind)

/-- Reads the next token if `select` has a use for it, and leaves it otherwise. -/
def takeIf {α : Type} (select : Token → Option α) : Parser (Option α) := do
  let cursor ← get
  match cursor.rest with
  | [] => return none
  | token :: rest =>
    match select token with
    | none => return none
    | some a =>
      set { cursor with last := some token, rest }
      return some a

/-- Reads the next token if it is of the given kind. -/
def accept (kind : Token.Kind) : Parser (Option Token) :=
  takeIf fun token => if token.kind = kind then some token else none

/-- Fails at the current token, which is not what was expected. -/
def unmet {α : Type} (expectation : Expectation) : Parser α := do
  let cursor ← get
  throw ⟨.expected expectation, cursor.current, cursor.errorSpan⟩

/-- Fails at a token that has been read. -/
def refuse {α : Type} (token : Token) (fault : SyntaxFault) : Parser α :=
  throw ⟨fault, token, token.span⟩

/-- Reads a token of the given kind, which has to come next. -/
def expect (kind : Token.Kind) (expectation : Expectation) : Parser Token := do
  match ← accept kind with
  | some token => return token
  | none => unmet expectation

/-- The span from `first` up to the token read last. -/
def spanFrom (first : Span) : Parser Span := do
  return first.through (← get).lastSpan

end Parser
end KawaiiLang
