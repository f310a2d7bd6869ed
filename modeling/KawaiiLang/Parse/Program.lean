import KawaiiLang.Parse.Statement
import KawaiiLang.Program.Basic

namespace KawaiiLang
namespace Parser

/-- One more parameter of `function`, which must not be named like an earlier one. -/
def param (function : String) (earlier : List String) : Parser String := do
  let token ← expect .identifier .param
  if earlier.contains token.lexeme then
    refuse token (.duplicateParam token.lexeme function)
  else
    return token.lexeme

/-- One or more parameters behind the `earlier` ones, with at most `bound` commas
    between them. -/
def moreParams (function : String) (earlier : List String) : Nat → Parser (List String)
  | 0 => return earlier ++ [← param function earlier]
  | bound + 1 => do
    let known := earlier ++ [← param function earlier]
    match ← accept (.symbol .comma) with
    | none => return known
    | some _ => moreParams function known bound

/-- The parameters of a function in their parentheses. -/
def params (function : String) : Parser (List String) := do
  let _ ← expect (.symbol .leftParen) (.paramsOpen function)
  let names ← if ← sees (.symbol .rightParen) then pure []
    else moreParams function [] (← remaining)
  let _ ← expect (.symbol .rightParen) .paramsClose
  return names

/-- The body of a function: a block, or one statement without braces. -/
def functionBody (function : String) : Parser (List Stmt) := do
  if (← accept (.symbol .leftBrace)).isSome then
    blockOf statement
  else if ← seesStatement then
    return [← terminated statement]
  else
    unmet (.functionBody function)

/-- A function definition; its keyword has been read at `first`. -/
def definition (first : Span) : Parser FunctionDef := do
  let name := (← expect .identifier .functionName).lexeme
  let params ← params name
  let _ ← accept (.symbol .arrow)
  let body ← functionBody name
  return { name, params, body, span := ← spanFrom first }

/-- Function definitions for as long as one begins, but at most `bound` of them. -/
def definitions : Nat → Parser (List FunctionDef)
  | 0 => return []
  | bound + 1 => do
    match ← accept (.keyword .kawaii) with
    | none => return []
    | some keyword =>
      let first ← definition keyword.span
      return first :: (← definitions bound)

/-- What the main entry runs: a block, or one statement without braces. -/
def mainBody : Parser MainEntry := do
  if (← accept (.symbol .leftBrace)).isSome then
    return .block (← blockOf statement)
  else if ← seesStatement then
    return .single (← terminated statement)
  else
    unmet .mainBody

/-- The main entry. -/
def mainEntry : Parser MainEntry := do
  let _ ← expect (.keyword .uWuNyaa) .mainEntry
  let _ ← expect (.symbol .leftParen) .mainOpen
  let _ ← expect (.symbol .rightParen) .mainClose
  let _ ← expect (.symbol .arrow) .mainArrow
  mainBody

/-- A check that all tokens have been read. -/
def finished (expectation : Expectation) : Parser Unit := do
  if ← atEnd then
    return
  else
    unmet expectation

/-- A whole program. No tokens at all make the empty program. -/
def program : Parser Program := do
  if ← atEnd then
    return ⟨[], none⟩
  else
    let functions ← definitions (← remaining)
    let main ← mainEntry
    finished .endAfterMain
    return ⟨functions, some main⟩

/-- All tokens as one expression, or nothing; then the cursor has not moved. -/
def wholeExpression? : Parser (Option Expr) := fun cursor =>
  if cursor.current.kind.startsExpression && !cursor.atNameStatement then
    match expression cursor with
    | .ok value next => if next.rest.isEmpty then .ok (some value) next else .ok none cursor
    | .error _ _ => .ok none cursor
  else
    .ok none cursor

/-- One line of an interactive session. A line that can be read as one expression
    is read so, and only else as statements. -/
def line : Parser Line := do
  if ← atEnd then
    return .empty
  else if let some keyword ← accept (.keyword .kawaii) then
    let function ← definition keyword.span
    finished .endAfterDefinition
    return .definition function
  else if let some value ← wholeExpression? then
    return .expression value
  else
    let body ← bodyOf statement
    finished .statement
    return .statements body

end Parser

/-- Reads tokens as a whole program. -/
def Program.ofTokens (tokens : List Token) : Except SyntaxError Program :=
  match Parser.program (.ofTokens tokens) with
  | .ok program _ => .ok program
  | .error error _ => .error error

/-- Reads tokens as one line of an interactive session. -/
def Line.ofTokens (tokens : List Token) : Except SyntaxError Line :=
  match Parser.line (.ofTokens tokens) with
  | .ok line _ => .ok line
  | .error error _ => .error error

end KawaiiLang
