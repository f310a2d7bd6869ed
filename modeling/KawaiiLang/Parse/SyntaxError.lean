import KawaiiLang.Diagnostic
import KawaiiLang.Token.Basic

namespace KawaiiLang

/-- What the grammar asks for at a place where something else stands. -/
inductive Expectation where
  | mainEntry
  | mainOpen
  | mainClose
  | mainArrow
  | mainBody
  | endAfterMain
  | endAfterDefinition
  | functionName
  | paramsOpen (function : String)
  | param
  | paramsClose
  | functionBody (function : String)
  | statement
  | blockClose
  /-- What makes a statement of the name that has been read. -/
  | nameUse (name : String)
  | loopOpen
  | loopClose
  | loopBody
  | conditionOpen (keyword : Keyword)
  | conditionClose (keyword : Keyword)
  | branchOpen (keyword : Keyword)
  | otherwiseOpen
  | guardedOpen
  | handler
  | handlerOpen
  | argsOpen (callee : String)
  | argsClose
  | promptOpen
  | promptClose
  | groupClose
  | expression
  deriving DecidableEq, Inhabited

namespace Expectation

/-- The expectation in words. Only the one about a name says itself what was
    `found` in its place. -/
def wording (found : Token) : Expectation → String
  | mainEntry => "Expected 'uWu_nyaa' main entry"
  | mainOpen => "Expected '(' after 'uWu_nyaa'"
  | mainClose => "Expected ')' after 'uWu_nyaa('"
  | mainArrow => "Expected '=>' after 'uWu_nyaa()'"
  | mainBody => "Expected '\x7b' or a statement after '=>'"
  | endAfterMain => "Expected end of input after main entry"
  | endAfterDefinition => "Expected end of input after function definition"
  | functionName => "Expected function name after 'kawaii'"
  | paramsOpen _ => "Expected '(' after function name"
  | param => "Expected parameter name"
  | paramsClose => "Expected ')' after parameters"
  | functionBody function => s!"Expected '\x7b' before body of function '{function}'"
  | statement => "Expected statement"
  | blockClose => "Expected '\x7d' after block"
  | nameUse name =>
    s!"Expected 'asain', '++', '--' or '(' after identifier '{name}', found {found.describe}"
  | loopOpen => "Expected '(' after 'nani'"
  | loopClose => "Expected ')' after while condition"
  | loopBody => "Expected '\x7b' before loop body"
  | conditionOpen keyword => s!"Expected '(' after '{keyword.spelling}'"
  | conditionClose keyword => s!"Expected ')' after '{keyword.spelling}' condition"
  | branchOpen keyword => s!"Expected '\x7b' after '{keyword.spelling}' condition"
  | otherwiseOpen => "Expected '\x7b' after 'baka'"
  | guardedOpen => "Expected '\x7b' after 'ganbatte'"
  | handler => "Expected 'gomenasai' after 'ganbatte' block"
  | handlerOpen => "Expected '\x7b' after 'gomenasai'"
  | argsOpen callee => s!"Expected '(' after '{callee}'"
  | argsClose => "Expected ')' after arguments"
  | promptOpen => "Expected '(' after 'ohayo'"
  | promptClose => "Expected ')' after input prompt"
  | groupClose => "Expected ')' after expression"
  | expression => "Expected expression"

/-- A hint on how to meet the expectation, where one is given. -/
def help : Expectation → Option String
  | mainEntry => some
    "A program is a list of 'kawaii' definitions followed by: uWu_nyaa() => \x7b ... \x7d"
  | mainBody => some "The main entry is either a block or a single statement."
  | paramsOpen function => some
    s!"Function definitions look like: kawaii {function}(a, b) \x7b ... \x7d"
  | blockClose => some "Block statements must be closed with '\x7d' after the opening '\x7b'."
  | nameUse name => some
    s!"Identifiers start an assignment ({name} asain 1), a postfix update ({name}++) or a call ({name}())."
  | loopOpen => some
    "While loops require parentheses around the condition: nani (condition) \x7b ... \x7d"
  | loopBody => some "A loop body is a block, or the bare keyword 'yamete' or 'motto'."
  | conditionOpen keyword => some
    s!"Conditions must be enclosed in parentheses: {keyword.spelling} (condition) \x7b ... \x7d"
  | handler => some "Every 'ganbatte \x7b ... \x7d' needs a handler: gomenasai \x7b ... \x7d"
  | promptClose => some "'ohayo' takes at most one string literal prompt: ohayo(\"name? \")"
  | _ => none

end Expectation

/-- Why a list of tokens cannot be read. -/
inductive SyntaxFault where
  | expected (expectation : Expectation)
  /-- The token that was read cannot begin an expression. -/
  | noExpression
  /-- The token that was read is a number or string that stands for nothing. -/
  | malformedLiteral
  | duplicateParam (name function : String)
  deriving DecidableEq, Inhabited

/-- Whether `word` occurs in `text`. -/
def mentions (word : List Char) : List Char → Bool
  | [] => word.isEmpty
  | c :: text => word.isPrefixOf (c :: text) || mentions word text

namespace SyntaxFault

/-- The wording of a syntax error at the token `found`. An unmet expectation is
    completed by the token found in its place, unless its wording already has the
    word "found" in it, be it only in the name of a function. -/
def message (found : Token) : SyntaxFault → String
  | expected expectation =>
    let wording := expectation.wording found
    if mentions "found".toList wording.toList then wording
    else s!"{wording}, found {found.describe}"
  | noExpression => s!"Expected expression, found {found.describe}"
  | malformedLiteral => s!"Malformed literal {found.describe}"
  | duplicateParam name function => s!"Duplicate parameter '{name}' in function '{function}'"

/-- The hint that goes with a syntax error. -/
def help : SyntaxFault → Option String
  | expected expectation => expectation.help
  | noExpression => some
    "Expressions are literals, identifiers, calls, or operators applied to them."
  | malformedLiteral | duplicateParam _ _ => none

end SyntaxFault

/-- A place where a list of tokens cannot be read. -/
structure SyntaxError where
  fault : SyntaxFault
  /-- The token at fault. -/
  found : Token
  /-- Where the error is shown; at the end of the input this is just behind the
      last token, and elsewhere the span of `found`. -/
  span : Span
  deriving DecidableEq, Inhabited

/-- The error as it is shown. -/
def SyntaxError.toDiagnostic (error : SyntaxError) : Diagnostic :=
  .syntactic error.span error.found.position (error.fault.message error.found) error.fault.help

end KawaiiLang
