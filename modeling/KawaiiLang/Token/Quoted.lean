namespace KawaiiLang

/-- The part of a text that was read as the inside of a string literal, starting
    just after its opening quote. -/
structure Quoted where
  /-- The characters that the literal stands for. -/
  value : List Char
  /-- The characters read, the closing quote included. -/
  text : List Char
  rest : List Char
  /-- Whether the closing quote was found. -/
  closed : Bool

namespace Quoted

/-- What a backslash followed by the given character stands for, if the two make
    an escape. -/
def escape? : Char → Option Char
  | '\\' => some '\\'
  | '"' => some '"'
  | 'n' => some '\n'
  | 't' => some '\t'
  | _ => none

/-- A string literal cannot run over the end of its line. -/
def endsLine (c : Char) : Bool :=
  c = '\n' || c = '\r'

/-- The literal with `value` and `text` put in front of what has been read. -/
def extend (value text : List Char) (inner : Quoted) : Quoted :=
  { inner with value := value ++ inner.value, text := text ++ inner.text }

/-- Reads the inside of a string literal up to its closing quote, or up to the end
    of the line if there is none. A backslash that starts no escape stands for
    itself, and the character after it is read again on its own. -/
def read : List Char → Quoted
  | [] => ⟨[], [], [], false⟩
  | '"' :: rest => ⟨[], ['"'], rest, true⟩
  | '\\' :: c :: rest =>
    match escape? c with
    | some d => extend [d] ['\\', c] (read rest)
    | none => extend ['\\'] ['\\'] (read (c :: rest))
  | c :: rest =>
    if endsLine c then ⟨[], [], c :: rest, false⟩ else extend [c] [c] (read rest)

/-- Reading loses nothing: what was read and what is left make up the text. -/
theorem text_append_rest (cs : List Char) : (read cs).text ++ (read cs).rest = cs := by
  fun_induction read cs <;> simp_all [extend]

end Quoted
end KawaiiLang
