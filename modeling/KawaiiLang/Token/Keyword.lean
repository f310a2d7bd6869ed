namespace KawaiiLang

/-- The reserved words, each named by its own spelling. -/
inductive Keyword where
  /-- Opens a function definition. -/
  | kawaii
  /-- Opens the main entry; written `uWu_nyaa`. -/
  | uWuNyaa
  /-- Assigns to a name. -/
  | asain
  /-- Prints. -/
  | purinto
  /-- Reads a line of input. -/
  | ohayo
  /-- The true constant; written `HAI`. -/
  | hai
  /-- The false constant; written `IIE`. -/
  | iie
  /-- Returns from a function. -/
  | sayonara
  /-- Opens a loop. -/
  | nani
  /-- Opens a conditional. -/
  | nyan
  /-- Opens a further condition of a conditional. -/
  | nyanyan
  /-- Opens the branch taken when no condition held. -/
  | baka
  /-- Leaves a loop. -/
  | yamete
  /-- Goes on with the next round of a loop. -/
  | motto
  /-- Does nothing. -/
  | pasu
  /-- Opens a guarded block. -/
  | ganbatte
  /-- Opens the handler of a guarded block. -/
  | gomenasai
  | and
  | or
  | not
  deriving DecidableEq, Inhabited

namespace Keyword

/-- How a keyword is written; case matters. -/
def spelling : Keyword → String
  | kawaii => "kawaii"
  | uWuNyaa => "uWu_nyaa"
  | asain => "asain"
  | purinto => "purinto"
  | ohayo => "ohayo"
  | hai => "HAI"
  | iie => "IIE"
  | sayonara => "sayonara"
  | nani => "nani"
  | nyan => "nyan"
  | nyanyan => "nyanyan"
  | baka => "baka"
  | yamete => "yamete"
  | motto => "motto"
  | pasu => "pasu"
  | ganbatte => "ganbatte"
  | gomenasai => "gomenasai"
  | and => "and"
  | or => "or"
  | not => "not"

/-- Every keyword, once. -/
def all : List Keyword :=
  [kawaii, uWuNyaa, asain, purinto, ohayo, hai, iie, sayonara, nani, nyan, nyanyan, baka, yamete,
    motto, pasu, ganbatte, gomenasai, and, or, not]

/-- The keyword written exactly as `word`, if the word is reserved. -/
def ofWord? (word : List Char) : Option Keyword :=
  all.find? fun keyword => keyword.spelling.toList = word

theorem mem_all (keyword : Keyword) : keyword ∈ all := by
  cases keyword <;> decide

/-- Spellings are pairwise distinct, so reading one gives back its keyword. -/
theorem ofWord?_spelling (keyword : Keyword) :
    ofWord? keyword.spelling.toList = some keyword := by
  cases keyword <;> decide

end Keyword
end KawaiiLang
