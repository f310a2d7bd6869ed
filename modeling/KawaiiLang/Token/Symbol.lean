namespace KawaiiLang

/-- The punctuation marks and operators. -/
inductive Symbol where
  | leftParen
  | rightParen
  | leftBrace
  | rightBrace
  | comma
  | semicolon
  | minus
  | plus
  | slash
  | star
  | greater
  | greaterEqual
  | less
  | lessEqual
  | equal
  | notEqual
  | increment
  | decrement
  | arrow
  deriving DecidableEq, Inhabited

namespace Symbol

/-- How a symbol is written. -/
def spelling : Symbol → String
  | leftParen => "("
  | rightParen => ")"
  | leftBrace => "\x7b"
  | rightBrace => "\x7d"
  | comma => ","
  | semicolon => ";"
  | minus => "-"
  | plus => "+"
  | slash => "/"
  | star => "*"
  | greater => ">"
  | greaterEqual => ">="
  | less => "<"
  | lessEqual => "<="
  | equal => "=="
  | notEqual => "!="
  | increment => "++"
  | decrement => "--"
  | arrow => "=>"

/-- Every symbol, once. -/
def all : List Symbol :=
  [leftParen, rightParen, leftBrace, rightBrace, comma, semicolon, minus, plus, slash, star,
    greater, greaterEqual, less, lessEqual, equal, notEqual, increment, decrement, arrow]

/-- The symbol written exactly as `text`. -/
def ofText? (text : List Char) : Option Symbol :=
  all.find? fun symbol => symbol.spelling.toList = text

/-- Spellings are pairwise distinct, so reading one gives back its symbol. -/
theorem ofText?_spelling (symbol : Symbol) :
    ofText? symbol.spelling.toList = some symbol := by
  cases symbol <;> decide

end Symbol
end KawaiiLang
