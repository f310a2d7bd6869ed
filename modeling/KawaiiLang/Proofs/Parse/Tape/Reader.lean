import KawaiiLang.Parse.Program

namespace KawaiiLang

/-- A look at a token: where it lies, and where the head of the tape stands meanwhile. -/
structure Look where
  head : Nat
  index : Nat

/-- Tokens that are read by their indices. -/
structure Tape where
  tokens : List Token
  /-- The index of the token to be read next. -/
  head : Nat
  /-- All looks at the tokens so far. -/
  looks : List Look

namespace Tape

/-- What ends the reading of a tape early. -/
inductive Halt where
  | wrong (error : SyntaxError)
  /-- The token that was read as an operator is none. -/
  | noOperator (token : Token)
  /-- There is no token where one was looked for. -/
  | outside

/-- A way to read a tape. There is no outcome at all if its calls would nest deeper than they
    may. -/
abbrev Reading :=
  ExceptT Halt (StateT Tape Option)

/-- The calls may not nest any deeper. -/
def tooDeep {α : Type} : Reading α :=
  fun _ => none

/-- The token that has been looked up, if there is one. -/
def found (token? : Option Token) : Reading Token :=
  token?.elim (throw .outside) pure

/-- Looks at the token number `index`. -/
def look (index : Nat) : Reading Token := do
  modify fun tape => { tape with looks := tape.looks ++ [⟨tape.head, index⟩] }
  found (← get).tokens[index]?

/-- The token to be read next, or the last one if the head stands behind it. -/
def peek : Reading Token := do
  let tape ← get
  look (min tape.head (tape.tokens.length - 1))

/-- The token behind the one to be read next. -/
def peekNext : Reading Token := do
  let tape ← get
  look (min (tape.head + 1) (tape.tokens.length - 1))

/-- The token read last. -/
def previous : Reading Token := do
  look ((← get).head - 1)

/-- Whether an end mark comes next. -/
def atEnd : Reading Bool := do
  return (← peek).kind = .endOfInput

/-- Whether a token of the given kind comes next. -/
def check (kind : Token.Kind) : Reading Bool := do
  if ← atEnd then
    return false
  else
    return (← peek).kind = kind

/-- Moves the head on, though not over an end mark, and gives the token in front of it. -/
def advance : Reading Token := do
  if ! (← atEnd) then
    modify fun tape => { tape with head := tape.head + 1 }
  previous

/-- Reads the next token if it is of one of the given kinds. -/
def accept : List Token.Kind → Reading Bool
  | [] => return false
  | kind :: kinds => do
    if ← check kind then
      let _ ← advance
      return true
    else
      accept kinds

/-- The span of an error at the next token, which is `token`. -/
def errorSpan (token : Token) : Reading Span := do
  if ← atEnd then
    let head := (← get).head
    if head > 0 then
      return .single (← look (head - 1)).span.stop
  return token.span

/-- Fails at the next token, which is not what was expected. -/
def unmet {α : Type} (expectation : Expectation) : Reading α := do
  let token ← peek
  throw (.wrong ⟨.expected expectation, token, ← errorSpan token⟩)

/-- Fails at a token that has been read. -/
def refuse {α : Type} (token : Token) (fault : SyntaxFault) : Reading α :=
  throw (.wrong ⟨fault, token, token.span⟩)

/-- Reads a token of the given kind, which has to come next. -/
def expect (kind : Token.Kind) (expectation : Expectation) : Reading Token := do
  if ← check kind then
    advance
  else
    unmet expectation

/-- The span from `first` up to the token read last. -/
def spanFrom (first : Span) : Reading Span := do
  return first.through (← previous).span

/-- The binary operators in three tiers. -/
inductive Tier where
  | relational
  | additive
  | multiplicative

/-- The tokens that are operators of a tier. -/
def Tier.kinds : Tier → List Token.Kind
  | relational =>
    [.symbol .equal, .symbol .notEqual, .symbol .less, .symbol .lessEqual, .symbol .greater,
      .symbol .greaterEqual]
  | additive => [.symbol .plus, .symbol .minus, .keyword .or]
  | multiplicative => [.symbol .star, .symbol .slash, .keyword .and]

/-- The operator that has been read. -/
def operator : Reading BinaryOp := do
  let token ← previous
  match token.kind with
  | .symbol .plus => return .add
  | .symbol .minus => return .subtract
  | .keyword .or => return .or
  | .symbol .star => return .multiply
  | .symbol .slash => return .divide
  | .keyword .and => return .and
  | .symbol .equal => return .equal
  | .symbol .notEqual => return .notEqual
  | .symbol .less => return .less
  | .symbol .lessEqual => return .lessEqual
  | .symbol .greater => return .greater
  | .symbol .greaterEqual => return .greaterEqual
  | _ => throw (.noOperator token)

/-- What stands between the parentheses of an input. -/
def prompt : Reading (Option String) := do
  let _ ← expect (.symbol .leftParen) .promptOpen
  let text ←
    if ← accept [.string] then
      match (← previous).literal with
      | some (.str text) => pure (some text)
      | _ => pure (some "")
    else
      pure none
  let _ ← expect (.symbol .rightParen) .promptClose
  return text

mutual

/-- An expression whose outermost operators are of the given tier or a tighter one. -/
def level (tier : Tier) : Nat → Reading Expr
  | 0 => tooDeep
  | depth + 1 => do
    let left ←
      match tier with
      | .relational => level .additive depth
      | .additive => level .multiplicative depth
      | .multiplicative => factor depth
    if ← accept tier.kinds then
      let op ← operator
      let right ← level tier depth
      return .binary op left right (left.span.through right.span)
    else
      return left

/-- The smallest part of an expression. -/
def factor : Nat → Reading Expr
  | 0 => tooDeep
  | depth + 1 => do
    if ← atEnd then
      unmet .expression
    else
      factorFrom (← advance) depth

/-- The smallest part of an expression that begins with `token`, which has been read. -/
def factorFrom (token : Token) : Nat → Reading Expr
  | 0 => tooDeep
  | depth + 1 => do
    match token.kind with
    | .symbol .minus =>
      let operand ← factor depth
      return .unary .negate operand (token.span.through operand.span)
    | .keyword .not =>
      let operand ← factor depth
      return .unary .not operand (token.span.through operand.span)
    | .symbol .leftParen =>
      let inner ← level .relational depth
      let _ ← expect (.symbol .rightParen) .groupClose
      return .group inner (← spanFrom token.span)
    | .identifier =>
      if ← check (.symbol .leftParen) then
        let args ← arguments token.lexeme depth
        return .call token.lexeme args (← spanFrom token.span)
      else
        return .name token.lexeme token.span
    | .keyword .purinto =>
      let args ← arguments Keyword.purinto.spelling depth
      return .print args (← spanFrom token.span)
    | .keyword .ohayo =>
      let prompt ← prompt
      return .input prompt (← spanFrom token.span)
    | .keyword .hai => return .literal (.bool true) token.span
    | .keyword .iie => return .literal (.bool false) token.span
    | .integer | .float | .string =>
      match token.literal with
      | some value => return .literal value token.span
      | none => refuse token .malformedLiteral
    | _ => refuse token .noExpression

/-- The arguments of a call in their parentheses. -/
def arguments (callee : String) : Nat → Reading (List Expr)
  | 0 => tooDeep
  | depth + 1 => do
    let _ ← expect (.symbol .leftParen) (.argsOpen callee)
    let args ← if ← check (.symbol .rightParen) then pure [] else items depth
    let _ ← expect (.symbol .rightParen) .argsClose
    return args

/-- One or more arguments with commas between them. -/
def items : Nat → Reading (List Expr)
  | 0 => tooDeep
  | depth + 1 => do
    let first ← level .relational depth
    if ← accept [.symbol .comma] then
      return first :: (← items depth)
    else
      return [first]

end

/-- An expression. -/
def expression : Nat → Reading Expr :=
  level .relational

/-- Whether a statement can begin here. -/
def seesStatement : Reading Bool := do
  return (← peek).kind.startsStatement

/-- Whether a name comes next that begins an assignment or an update. -/
def atNameStatement : Reading Bool := do
  if ← check .identifier then
    return match (← peekNext).kind with
      | .keyword .asain | .symbol .increment | .symbol .decrement => true
      | _ => false
  else
    return false

/-- Whether an expression comes next that begins with a token as in `starts`. -/
def atValue (starts : Token.Kind → Bool) : Reading Bool := do
  if starts (← peek).kind then
    return ! (← atNameStatement)
  else
    return false

/-- A return with or without a value; its keyword has been read at `first`. -/
def returnAt (first : Span) (depth : Nat) : Reading Stmt := do
  if ← atValue fun kind => kind.startsExpression && kind ≠ .keyword .purinto &&
      kind ≠ .keyword .ohayo then
    let value ← expression depth
    return .returnWith (some value) (← spanFrom first)
  else
    return .returnWith none (← spanFrom first)

/-- A statement that begins with a name, which has been read. -/
def nameStatement (name : Token) (depth : Nat) : Reading Stmt := do
  if ← accept [.keyword .asain] then
    let value ← expression depth
    return .assign name.lexeme value (name.span.through value.span)
  else if ← accept [.symbol .increment, .symbol .decrement] then
    let op := match (← previous).kind with
      | .symbol .increment => UpdateOp.increment
      | _ => UpdateOp.decrement
    return .update name.lexeme op (← spanFrom name.span)
  else if ← check (.symbol .leftParen) then
    let args ← arguments name.lexeme depth
    return .call name.lexeme args (← spanFrom name.span)
  else
    unmet (.nameUse name.lexeme)

mutual

/-- A statement. -/
def statement : Nat → Reading Stmt
  | 0 => tooDeep
  | depth + 1 => do
    statementFrom (← advance) depth

/-- A statement that begins with `token`, which has been read. -/
def statementFrom (token : Token) : Nat → Reading Stmt
  | 0 => tooDeep
  | depth + 1 => do
    match token.kind with
    | .keyword .pasu => return .pass token.span
    | .keyword .yamete => return .breakLoop token.span
    | .keyword .motto => return .continueLoop token.span
    | .keyword .sayonara => returnAt token.span depth
    | .keyword .nani => loop token.span depth
    | .keyword .nyan => conditional token.span depth
    | .keyword .ganbatte => guarded token.span depth
    | .keyword .purinto =>
      let args ← arguments Keyword.purinto.spelling depth
      return .print args (← spanFrom token.span)
    | .keyword .ohayo =>
      let prompt ← prompt
      return .input prompt (← spanFrom token.span)
    | .identifier => nameStatement token depth
    | _ => refuse token (.expected .statement)

/-- A statement and the semicolon that may follow it. -/
def terminated : Nat → Reading Stmt
  | 0 => tooDeep
  | depth + 1 => do
    let first ← statement depth
    let _ ← accept [.symbol .semicolon]
    return first

/-- Statements for as long as one can begin. -/
def body : Nat → Reading (List Stmt)
  | 0 => tooDeep
  | depth + 1 => do
    if ← seesStatement then
      let first ← terminated depth
      return first :: (← body depth)
    else
      return []

/-- Statements up to and including the closing brace. -/
def block : Nat → Reading (List Stmt)
  | 0 => tooDeep
  | depth + 1 => do
    let body ← body depth
    let _ ← expect (.symbol .rightBrace) .blockClose
    return body

/-- A loop; its keyword has been read at `first`. -/
def loop (first : Span) : Nat → Reading Stmt
  | 0 => tooDeep
  | depth + 1 => do
    let _ ← expect (.symbol .leftParen) .loopOpen
    let condition ← expression depth
    let _ ← expect (.symbol .rightParen) .loopClose
    let body ← loopBody depth
    return .loop condition body (← spanFrom first)

/-- What a loop runs. -/
def loopBody : Nat → Reading LoopBody
  | 0 => tooDeep
  | depth + 1 => do
    if ← accept [.keyword .yamete] then
      return .breakOnly
    else if ← accept [.keyword .motto] then
      return .continueOnly
    else
      let _ ← expect (.symbol .leftBrace) .loopBody
      return .block (← block depth)

/-- A conditional; its keyword has been read at `first`. -/
def conditional (first : Span) : Nat → Reading Stmt
  | 0 => tooDeep
  | depth + 1 => do
    let (condition, body) ← branch .nyan depth
    let elifs ← elifs depth
    let otherwise ← otherwise depth
    return .branch condition body elifs otherwise (← spanFrom first)

/-- A condition in parentheses and the block that depends on it; `keyword` has been read. -/
def branch (keyword : Keyword) : Nat → Reading (Expr × List Stmt)
  | 0 => tooDeep
  | depth + 1 => do
    let _ ← expect (.symbol .leftParen) (.conditionOpen keyword)
    let condition ← expression depth
    let _ ← expect (.symbol .rightParen) (.conditionClose keyword)
    let _ ← expect (.symbol .leftBrace) (.branchOpen keyword)
    return (condition, ← block depth)

/-- The further conditions of a conditional. -/
def elifs : Nat → Reading (List (Expr × List Stmt))
  | 0 => tooDeep
  | depth + 1 => do
    if ← accept [.keyword .nyanyan] then
      let first ← branch .nyanyan depth
      return first :: (← elifs depth)
    else
      return []

/-- The branch that is taken when no condition holds. -/
def otherwise : Nat → Reading (Option (List Stmt))
  | 0 => tooDeep
  | depth + 1 => do
    if ← accept [.keyword .baka] then
      let _ ← expect (.symbol .leftBrace) .otherwiseOpen
      return some (← block depth)
    else
      return none

/-- A guarded block and its handler; the keyword has been read at `first`. -/
def guarded (first : Span) : Nat → Reading Stmt
  | 0 => tooDeep
  | depth + 1 => do
    let _ ← expect (.symbol .leftBrace) .guardedOpen
    let body ← block depth
    let _ ← expect (.keyword .gomenasai) .handler
    let _ ← expect (.symbol .leftBrace) .handlerOpen
    let handler ← block depth
    return .guarded body handler (← spanFrom first)

end

/-- One more parameter of `function`, which must not be named like an earlier one. -/
def param (function : String) (earlier : List String) : Reading String := do
  let token ← expect .identifier .param
  if earlier.contains token.lexeme then
    refuse token (.duplicateParam token.lexeme function)
  else
    return token.lexeme

/-- One or more parameters behind the `earlier` ones. -/
def moreParams (function : String) (earlier : List String) : Nat → Reading (List String)
  | 0 => tooDeep
  | depth + 1 => do
    let known := earlier ++ [← param function earlier]
    if ← accept [.symbol .comma] then
      moreParams function known depth
    else
      return known

/-- The parameters of a function in their parentheses. -/
def params (function : String) (depth : Nat) : Reading (List String) := do
  let _ ← expect (.symbol .leftParen) (.paramsOpen function)
  let names ← if ← check (.symbol .rightParen) then pure [] else moreParams function [] depth
  let _ ← expect (.symbol .rightParen) .paramsClose
  return names

/-- The body of a function. -/
def functionBody (function : String) (depth : Nat) : Reading (List Stmt) := do
  if ← accept [.symbol .leftBrace] then
    block depth
  else if ← seesStatement then
    return [← terminated depth]
  else
    unmet (.functionBody function)

/-- A function definition, the keyword of which has been read. -/
def definition (depth : Nat) : Reading FunctionDef := do
  let first := (← previous).span
  let name := (← expect .identifier .functionName).lexeme
  let params ← params name depth
  let _ ← accept [.symbol .arrow]
  let body ← functionBody name depth
  return { name, params, body, span := ← spanFrom first }

/-- Function definitions for as long as one begins. -/
def definitions : Nat → Reading (List FunctionDef)
  | 0 => tooDeep
  | depth + 1 => do
    if ← accept [.keyword .kawaii] then
      let first ← definition depth
      return first :: (← definitions depth)
    else
      return []

/-- What the main entry runs. -/
def mainBody (depth : Nat) : Reading MainEntry := do
  if ← accept [.symbol .leftBrace] then
    return .block (← block depth)
  else if ← seesStatement then
    return .single (← terminated depth)
  else
    unmet .mainBody

/-- The main entry. -/
def mainEntry (depth : Nat) : Reading MainEntry := do
  let _ ← expect (.keyword .uWuNyaa) .mainEntry
  let _ ← expect (.symbol .leftParen) .mainOpen
  let _ ← expect (.symbol .rightParen) .mainClose
  let _ ← expect (.symbol .arrow) .mainArrow
  mainBody depth

/-- A check that the end has been reached. -/
def finished (expectation : Expectation) : Reading Unit := do
  if ← atEnd then
    return
  else
    unmet expectation

/-- A whole program. -/
def program (depth : Nat) : Reading Program := do
  if ← atEnd then
    return ⟨[], none⟩
  else
    let functions ← definitions depth
    let main ← mainEntry depth
    finished .endAfterMain
    return ⟨functions, some main⟩

/-- The outcome of a reading, be it a syntax error. -/
def attempt {α : Type} (reading : Reading α) : Reading (Except SyntaxError α) :=
  ExceptT.mk do
    match ← reading.run with
    | .ok value => return .ok (.ok value)
    | .error (.wrong error) => return .ok (.error error)
    | .error halt => return .error halt

/-- An expression up to the end; or else the head is put back. -/
def wholeExpression? (depth : Nat) : Reading (Option Expr) := do
  if ← atValue Token.Kind.startsExpression then
    let checkpoint := (← get).head
    if let .ok value ← attempt (expression depth) then
      if ← atEnd then
        return some value
    modify fun tape => { tape with head := checkpoint }
  return none

/-- One line of an interactive session. -/
def line (depth : Nat) : Reading Line := do
  if ← atEnd then
    return .empty
  else if ← accept [.keyword .kawaii] then
    let function ← definition depth
    finished .endAfterDefinition
    return .definition function
  else if let some value ← wholeExpression? depth then
    return .expression value
  else
    let body ← body depth
    finished .statement
    return .statements body

end Tape
end KawaiiLang
