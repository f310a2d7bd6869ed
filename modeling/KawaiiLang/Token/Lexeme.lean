import KawaiiLang.Token.Basic
import KawaiiLang.Token.Quoted

namespace KawaiiLang

/-- Why a text cannot be cut into tokens. -/
inductive LexFault where
  | unexpectedCharacter (c : Char)
  | unterminatedString
  /-- The digits stand for more than the largest integer. -/
  | integerTooLarge (digits : String)
  deriving DecidableEq, Inhabited

/-- The wording of a lexical error. -/
def LexFault.message : LexFault → String
  | unexpectedCharacter c => s!"Unexpected character: '{c}'"
  | unterminatedString => "Unterminated string"
  | integerTooLarge digits => s!"Invalid integer: {digits}"

/-- What the front of a text turns out to be. -/
inductive Lexeme.Found where
  /-- White space or a comment, which leaves no token behind. -/
  | blank
  | token (kind : Token.Kind) (literal : Option Literal)
  | fault (fault : LexFault)

/-- The front of a text, cut off from the rest of it. -/
structure Lexeme where
  found : Lexeme.Found
  text : List Char
  rest : List Char

namespace Lexeme

/-- The characters that only separate tokens. -/
def isBlank (c : Char) : Bool :=
  c = ' ' || c = '\t' || c = '\r' || c = '\n'

/-- The characters that a name or keyword can begin with. -/
def startsWord (c : Char) : Bool :=
  c.isAlpha || c = '_'

/-- The characters that a name or keyword can go on with. -/
def continuesWord (c : Char) : Bool :=
  c.isAlphanum || c = '_'

/-- Cuts off `c` and all that follows it as long as `p` holds. -/
def stretch (found : List Char → Found) (p : Char → Bool) (c : Char) (cs : List Char) : Lexeme :=
  let text := c :: cs.takeWhile p
  ⟨found text, text, cs.dropWhile p⟩

/-- A name, unless the whole word is reserved. -/
def word (text : List Char) : Found :=
  match Keyword.ofWord? text with
  | some keyword => .token (.keyword keyword) none
  | none => .token .identifier none

/-- An integer, unless it is too large. A sign is no part of it, so the smallest
    integer cannot be written. -/
def integer (digits : List Char) : Found :=
  let value := Nat.ofDigitChars 10 digits 0
  if value < integerBound then .token .integer (some (.int (.ofNat value)))
  else .fault (.integerTooLarge (String.ofList digits))

/-- The number closest to the decimal with the given digits before and after its
    point. -/
def float (whole fraction : List Char) : Found :=
  let digits := Nat.ofDigitChars 10 (whole ++ fraction) 0
  .token .float (some (.float (.ofScientific digits true fraction.length)))

/-- Digits, and a fraction if a point with a digit after it follows them. A point
    without one is left for the next lexeme. -/
def number (c : Char) (cs : List Char) : Lexeme :=
  let whole := c :: cs.takeWhile Char.isDigit
  match cs.dropWhile Char.isDigit with
  | '.' :: d :: rest =>
    if d.isDigit then
      let fraction := d :: rest.takeWhile Char.isDigit
      ⟨float whole fraction, whole ++ '.' :: fraction, rest.dropWhile Char.isDigit⟩
    else ⟨integer whole, whole, '.' :: d :: rest⟩
  | rest => ⟨integer whole, whole, rest⟩

/-- A string literal; `cs` follows its opening quote. -/
def string (cs : List Char) : Lexeme :=
  let inner := Quoted.read cs
  let found := if inner.closed
    then .token .string (some (.str (String.ofList inner.value)))
    else .fault .unterminatedString
  ⟨found, '"' :: inner.text, inner.rest⟩

/-- A symbol of two characters if there is one, else one of a single character. -/
def symbol (c : Char) (cs : List Char) : Lexeme :=
  let single : Lexeme := match Symbol.ofText? [c] with
    | some s => ⟨.token (.symbol s) none, [c], cs⟩
    | none => ⟨.fault (.unexpectedCharacter c), [c], cs⟩
  match cs with
  | d :: rest => match Symbol.ofText? [c, d] with
    | some s => ⟨.token (.symbol s) none, [c, d], rest⟩
    | none => single
  | [] => single

/-- Cuts the first lexeme off the text `c :: cs`. Its first character decides what
    it can be, and it reaches as far as it can. -/
def cut (c : Char) (cs : List Char) : Lexeme :=
  if isBlank c then ⟨.blank, [c], cs⟩
  else if c = '#' then stretch (fun _ => .blank) (· ≠ '\n') c cs
  else if c = '"' then string cs
  else if c.isDigit then number c cs
  else if startsWord c then stretch word continuesWord c cs
  else symbol c cs

theorem number_text_append_rest (c : Char) (cs : List Char) :
    (number c cs).text ++ (number c cs).rest = c :: cs := by
  have hcs : cs.takeWhile Char.isDigit ++ cs.dropWhile Char.isDigit = cs :=
    List.takeWhile_append_dropWhile
  unfold number
  split
  · next d rest hrest =>
    rw [hrest] at hcs
    split <;> simp [hcs]
  · simp [hcs]

theorem symbol_text_append_rest (c : Char) (cs : List Char) :
    (symbol c cs).text ++ (symbol c cs).rest = c :: cs := by
  unfold symbol
  cases cs with
  | nil => dsimp only; split <;> rfl
  | cons d rest => dsimp only; repeat (split <;> try rfl)

/-- Cutting loses nothing: the lexeme and the rest make up the text. -/
theorem cut_text_append_rest (c : Char) (cs : List Char) :
    (cut c cs).text ++ (cut c cs).rest = c :: cs := by
  unfold cut
  split
  · rfl
  split
  · simp [stretch]
  split
  · next hquote => simp [string, Quoted.text_append_rest, hquote]
  split
  · exact number_text_append_rest c cs
  split
  · simp [stretch]
  · exact symbol_text_append_rest c cs

/-- A lexeme has at least one character. -/
theorem cut_text_ne_nil (c : Char) (cs : List Char) : (cut c cs).text ≠ [] := by
  unfold cut
  repeat' split
  all_goals simp [stretch, string, number, symbol]
  · repeat' split
    all_goals simp
  · cases cs
    all_goals repeat' split
    all_goals simp

/-- What is left after a lexeme is shorter than the text it was cut from. -/
theorem cut_rest_length_lt (c : Char) (cs : List Char) :
    (cut c cs).rest.length < (c :: cs).length := by
  have htext := List.length_pos_iff.mpr (cut_text_ne_nil c cs)
  have hall := congrArg List.length (cut_text_append_rest c cs)
  rw [List.length_append] at hall
  omega

end Lexeme
end KawaiiLang
