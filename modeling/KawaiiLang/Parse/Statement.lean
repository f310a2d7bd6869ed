import KawaiiLang.Parse.Expression
import KawaiiLang.Program.Stmt

namespace KawaiiLang

/-- Whether a statement can begin with a token of this kind. -/
def Token.Kind.startsStatement : Token.Kind → Bool
  | keyword .pasu | keyword .yamete | keyword .motto | keyword .sayonara | keyword .nani
  | keyword .nyan | keyword .ganbatte | keyword .purinto | keyword .ohayo | identifier => true
  | _ => false

/-- Whether a return takes the current token as the start of its value. Printing
    and reading input are then statements of their own, as is a name that begins an
    assignment or an update. -/
def Cursor.atReturnValue (cursor : Cursor) : Bool :=
  let kind := cursor.current.kind
  kind.startsExpression && kind ≠ .keyword .purinto && kind ≠ .keyword .ohayo &&
    !cursor.atNameStatement

namespace Parser

/-- Whether a statement can begin here. -/
def seesStatement : Parser Bool := do
  return (← get).current.kind.startsStatement

/-- A statement and the semicolon that may follow it. -/
def terminated (statement : Parser Stmt) : Parser Stmt := do
  let first ← statement
  let _ ← accept (.symbol .semicolon)
  return first

/-- Statements for as long as one can begin, but at most `bound` of them. -/
def sequence (statement : Parser Stmt) : Nat → Parser (List Stmt)
  | 0 => return []
  | bound + 1 => do
    if ← seesStatement then
      let first ← terminated statement
      return first :: (← sequence statement bound)
    else
      return []

/-- Statements for as long as one can begin. -/
def bodyOf (statement : Parser Stmt) : Parser (List Stmt) := do
  sequence statement (← remaining)

/-- Statements up to and including the closing brace. -/
def blockOf (statement : Parser Stmt) : Parser (List Stmt) := do
  let body ← bodyOf statement
  let _ ← expect (.symbol .rightBrace) .blockClose
  return body

/-- A condition in parentheses and the block that depends on it; `keyword` has been
    read. -/
def branchOf (statement : Parser Stmt) (keyword : Keyword) : Parser (Expr × List Stmt) := do
  let _ ← expect (.symbol .leftParen) (.conditionOpen keyword)
  let condition ← expression
  let _ ← expect (.symbol .rightParen) (.conditionClose keyword)
  let _ ← expect (.symbol .leftBrace) (.branchOpen keyword)
  return (condition, ← blockOf statement)

/-- The further conditions of a conditional, at most `bound` of them. -/
def elifsOf (statement : Parser Stmt) : Nat → Parser (List (Expr × List Stmt))
  | 0 => return []
  | bound + 1 => do
    match ← accept (.keyword .nyanyan) with
    | none => return []
    | some _ =>
      let first ← branchOf statement .nyanyan
      return first :: (← elifsOf statement bound)

/-- The branch that is taken when no condition holds, if there is one. -/
def otherwiseOf (statement : Parser Stmt) : Parser (Option (List Stmt)) := do
  match ← accept (.keyword .baka) with
  | none => return none
  | some _ =>
    let _ ← expect (.symbol .leftBrace) .otherwiseOpen
    return some (← blockOf statement)

/-- What a loop runs: one of the two bare words, or a block. -/
def loopBodyOf (statement : Parser Stmt) : Parser LoopBody := do
  if (← accept (.keyword .yamete)).isSome then
    return .breakOnly
  else if (← accept (.keyword .motto)).isSome then
    return .continueOnly
  else
    let _ ← expect (.symbol .leftBrace) .loopBody
    return .block (← blockOf statement)

/-- A loop; its keyword has been read at `first`. -/
def loopOf (statement : Parser Stmt) (first : Span) : Parser Stmt := do
  let _ ← expect (.symbol .leftParen) .loopOpen
  let condition ← expression
  let _ ← expect (.symbol .rightParen) .loopClose
  let body ← loopBodyOf statement
  return .loop condition body (← spanFrom first)

/-- A conditional; its keyword has been read at `first`. -/
def conditionalOf (statement : Parser Stmt) (first : Span) : Parser Stmt := do
  let (condition, body) ← branchOf statement .nyan
  let elifs ← elifsOf statement (← remaining)
  let otherwise ← otherwiseOf statement
  return .branch condition body elifs otherwise (← spanFrom first)

/-- A guarded block and its handler; the keyword has been read at `first`. -/
def guardedOf (statement : Parser Stmt) (first : Span) : Parser Stmt := do
  let _ ← expect (.symbol .leftBrace) .guardedOpen
  let body ← blockOf statement
  let _ ← expect (.keyword .gomenasai) .handler
  let _ ← expect (.symbol .leftBrace) .handlerOpen
  let handler ← blockOf statement
  return .guarded body handler (← spanFrom first)

/-- A return with or without a value; its keyword has been read at `first`. -/
def returnAt (first : Span) : Parser Stmt := do
  if (← get).atReturnValue then
    let value ← expression
    return .returnWith (some value) (← spanFrom first)
  else
    return .returnWith none first

/-- The operator of an update. -/
def updateOp : Token.Kind → Option UpdateOp
  | .symbol .increment => some .increment
  | .symbol .decrement => some .decrement
  | _ => none

/-- A statement that begins with a name, which has been read. -/
def nameStatement (name : Token) : Parser Stmt := do
  if (← accept (.keyword .asain)).isSome then
    let value ← expression
    return .assign name.lexeme value (name.span.through value.span)
  else if let some op ← takeIf (updateOp ·.kind) then
    return .update name.lexeme op (← spanFrom name.span)
  else if ← sees (.symbol .leftParen) then
    let args ← arguments name.lexeme
    return .call name.lexeme args (← spanFrom name.span)
  else
    unmet (.nameUse name.lexeme)

/-- A statement that begins with `token`, which has been read. Statements inside it are
    read by `nested`. -/
def statementFrom (nested : Parser Stmt) (token : Token) : Parser Stmt :=
  match token.kind with
  | .keyword .pasu => return .pass token.span
  | .keyword .yamete => return .breakLoop token.span
  | .keyword .motto => return .continueLoop token.span
  | .keyword .sayonara => returnAt token.span
  | .keyword .nani => loopOf nested token.span
  | .keyword .nyan => conditionalOf nested token.span
  | .keyword .ganbatte => guardedOf nested token.span
  | .keyword .purinto => do
    let args ← arguments Keyword.purinto.spelling
    return .print args (← spanFrom token.span)
  | .keyword .ohayo => do
    let prompt ← prompt
    return .input prompt (← spanFrom token.span)
  | .identifier => nameStatement token
  | _ => refuse token (.expected .statement)

/-- A statement. Statements nest at most `bound` deep, and as every level reads a
    token, the number of tokens left is a bound that is never reached. -/
def nestedStatement : Nat → Parser Stmt
  | 0 => unmet .statement
  | bound + 1 => do
    match ← takeIf some with
    | none => unmet .statement
    | some token => statementFrom (nestedStatement bound) token

/-- A statement. -/
def statement : Parser Stmt := do
  nestedStatement (← remaining)

end Parser
end KawaiiLang
