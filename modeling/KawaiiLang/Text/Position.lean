namespace KawaiiLang

/-- A place in a text as a reader counts it: lines and columns from 1. -/
structure Position where
  line : Nat
  column : Nat
  deriving DecidableEq, Inhabited

namespace Position

/-- Where every text starts. -/
def start : Position :=
  ⟨1, 1⟩

/-- The place just after `c`, if `c` stands at `p`. Only a line feed starts a
    new line; every other character is one column wide. -/
def next (p : Position) (c : Char) : Position :=
  if c = '\n' then ⟨p.line + 1, 1⟩ else ⟨p.line, p.column + 1⟩

/-- The place just after `text`, if `text` starts at `p`. -/
def after (p : Position) (text : List Char) : Position :=
  text.foldl next p

@[simp] theorem after_nil (p : Position) : p.after [] = p :=
  rfl

@[simp] theorem after_cons (p : Position) (c : Char) (text : List Char) :
    p.after (c :: text) = (p.next c).after text :=
  rfl

theorem after_append (p : Position) (first second : List Char) :
    p.after (first ++ second) = (p.after first).after second := by
  simp [after]

/-- The place of the character number `offset` of `source`. Offsets past the end
    all give the place just after the text. -/
def ofOffset (source : String) (offset : Nat) : Position :=
  start.after (source.toList.take offset)

/-- The place as it is named in messages. -/
def render (p : Position) : String :=
  s!"line {p.line}, column {p.column}"

end Position

/-- How far a text has been read: the number of characters behind the reader and
    the place of the next one. -/
structure Mark where
  offset : Nat
  position : Position
  deriving DecidableEq, Inhabited

namespace Mark

/-- Nothing has been read yet. -/
def start : Mark :=
  ⟨0, .start⟩

/-- The mark after reading `text`. -/
def after (m : Mark) (text : List Char) : Mark :=
  ⟨m.offset + text.length, m.position.after text⟩

@[simp] theorem after_nil (m : Mark) : m.after [] = m :=
  rfl

theorem after_append (m : Mark) (first second : List Char) :
    m.after (first ++ second) = (m.after first).after second := by
  simp [after, Position.after_append, Nat.add_assoc]

end Mark
end KawaiiLang
