import KawaiiLang.Parse.Cursor
import KawaiiLang.Program.Expr

namespace KawaiiLang.Parser

/-- The loosest tier of operators compares. -/
def relational : Token.Kind → Option BinaryOp
  | .symbol .equal => some .equal
  | .symbol .notEqual => some .notEqual
  | .symbol .less => some .less
  | .symbol .lessEqual => some .lessEqual
  | .symbol .greater => some .greater
  | .symbol .greaterEqual => some .greaterEqual
  | _ => none

/-- The middle tier adds, subtracts and joins conditions by "or". -/
def additive : Token.Kind → Option BinaryOp
  | .symbol .plus => some .add
  | .symbol .minus => some .subtract
  | .keyword .or => some .or
  | _ => none

/-- The tightest tier multiplies, divides and joins conditions by "and". -/
def multiplicative : Token.Kind → Option BinaryOp
  | .symbol .star => some .multiply
  | .symbol .slash => some .divide
  | .keyword .and => some .and
  | _ => none

/-- Operands with operators of one tier between them, grouped to the right, so that
    the text of `a - b - c` means `a - (b - c)`. At most `bound` operators are read. -/
def chain (operator : Token.Kind → Option BinaryOp) (operand : Parser Expr) :
    Nat → Parser Expr
  | 0 => operand
  | bound + 1 => do
    let left ← operand
    match ← takeIf (operator ·.kind) with
    | none => return left
    | some op =>
      let right ← chain operator operand bound
      return .binary op left right (left.span.through right.span)

/-- Operands with any number of operators of one tier between them. -/
def tier (operator : Token.Kind → Option BinaryOp) (operand : Parser Expr) : Parser Expr := do
  chain operator operand (← remaining)

/-- An expression over the given smallest parts. -/
def expressionOf (factor : Parser Expr) : Parser Expr :=
  tier relational (tier additive (tier multiplicative factor))

/-- One or more items with commas between them. At most `bound` commas are read. -/
def commaSeparated {α : Type} (item : Parser α) : Nat → Parser (List α)
  | 0 => return [← item]
  | bound + 1 => do
    let first ← item
    match ← accept (.symbol .comma) with
    | none => return [first]
    | some _ => return first :: (← commaSeparated item bound)

/-- The arguments of a call in their parentheses. -/
def argumentsOf (expression : Parser Expr) (callee : String) : Parser (List Expr) := do
  let _ ← expect (.symbol .leftParen) (.argsOpen callee)
  let args ← if ← sees (.symbol .rightParen) then pure []
    else commaSeparated expression (← remaining)
  let _ ← expect (.symbol .rightParen) .argsClose
  return args

/-- What stands between the parentheses of an input: a string literal or nothing.
    A string token that stands for no string counts as the empty prompt. -/
def prompt : Parser (Option String) := do
  let _ ← expect (.symbol .leftParen) .promptOpen
  let text ← match ← accept .string with
    | some { literal := some (.str text), .. } => pure (some text)
    | some _ => pure (some "")
    | none => pure none
  let _ ← expect (.symbol .rightParen) .promptClose
  return text

/-- The smallest part of an expression that begins with `token`, which has been read:
    a literal, a name, a call, an expression in parentheses, or an operator in front of
    such a part. Parts inside it are read by `nested`. -/
def factorFrom (nested : Parser Expr) (token : Token) : Parser Expr :=
  match token.kind with
  | .symbol .minus => do
    let operand ← nested
    return .unary .negate operand (token.span.through operand.span)
  | .keyword .not => do
    let operand ← nested
    return .unary .not operand (token.span.through operand.span)
  | .symbol .leftParen => do
    let inner ← expressionOf nested
    let _ ← expect (.symbol .rightParen) .groupClose
    return .group inner (← spanFrom token.span)
  | .identifier => do
    if ← sees (.symbol .leftParen) then
      let args ← argumentsOf (expressionOf nested) token.lexeme
      return .call token.lexeme args (← spanFrom token.span)
    else
      return .name token.lexeme token.span
  | .keyword .purinto => do
    let args ← argumentsOf (expressionOf nested) Keyword.purinto.spelling
    return .print args (← spanFrom token.span)
  | .keyword .ohayo => do
    let prompt ← prompt
    return .input prompt (← spanFrom token.span)
  | .keyword .hai => return .literal (.bool true) token.span
  | .keyword .iie => return .literal (.bool false) token.span
  | .integer | .float | .string =>
    match token.literal with
    | some value => return .literal value token.span
    | none => refuse token .malformedLiteral
  | _ => refuse token .noExpression

/-- The smallest parts of an expression. They nest at most `bound` deep, and as every
    level reads a token, the number of tokens left is a bound that is never reached. -/
def factor : Nat → Parser Expr
  | 0 => unmet .expression
  | bound + 1 => do
    match ← takeIf some with
    | none => unmet .expression
    | some token => factorFrom (factor bound) token

/-- An expression. -/
def expression : Parser Expr := do
  expressionOf (factor (← remaining))

/-- The arguments of a call. -/
def arguments (callee : String) : Parser (List Expr) := do
  argumentsOf (expressionOf (factor (← remaining))) callee

end KawaiiLang.Parser
