import KawaiiLang.Diagnostic
import KawaiiLang.Token.Lexeme

namespace KawaiiLang

/-- A place where a text cannot be cut into tokens. -/
structure LexError where
  fault : LexFault
  span : Span
  position : Position
  deriving DecidableEq, Inhabited

/-- The error as it is shown. -/
def LexError.toDiagnostic (error : LexError) : Diagnostic :=
  .lexical error.span error.position error.fault.message

/-- A text that is being cut into tokens. -/
structure Lexer where
  /-- The characters still to be read. -/
  rest : List Char
  /-- How far the text has been read. -/
  mark : Mark
  /-- The tokens read so far that no scan has handed out yet. They outlive a scan
      that ends in an error. -/
  pending : Array Token
  deriving Inhabited

namespace Lexer

/-- A lexer at the start of `source`. -/
def ofSource (source : String) : Lexer :=
  ⟨source.toList, .start, #[]⟩

/-- The lexer once `lexeme` has been read, whatever it was. -/
def skip (lexer : Lexer) (lexeme : Lexeme) : Lexer :=
  { lexer with rest := lexeme.rest, mark := lexer.mark.after lexeme.text }

/-- The span of `lexeme`, if the lexer stands in front of it. -/
def spanOf (lexer : Lexer) (lexeme : Lexeme) : Span :=
  ⟨lexer.mark.offset, lexer.mark.offset + lexeme.text.length⟩

/-- The token that `lexeme` makes, if the lexer stands in front of it. -/
def tokenOf (lexer : Lexer) (lexeme : Lexeme) (kind : Token.Kind) (literal : Option Literal) :
    Token :=
  { kind, lexeme := String.ofList lexeme.text, literal,
    span := lexer.spanOf lexeme, position := lexer.mark.position }

/-- The lexer with one more token waiting to be handed out. -/
def push (lexer : Lexer) (token : Token) : Lexer :=
  { lexer with pending := lexer.pending.push token }

/-- Reads up to the end of the text and hands out all tokens that are waiting, with
    the end mark behind them; or reads up to the first error and stops just after
    the text at fault, so that a further scan goes on from there. -/
def scan : Lexer → Except LexError (List Token) × Lexer
  | ⟨[], mark, pending⟩ => (.ok (pending.push (.endAt mark)).toList, ⟨[], mark, #[]⟩)
  | lexer@⟨c :: cs, _, _⟩ =>
    let lexeme := Lexeme.cut c cs
    match lexeme.found with
    | .blank => (lexer.skip lexeme).scan
    | .token kind literal =>
      ((lexer.skip lexeme).push (lexer.tokenOf lexeme kind literal)).scan
    | .fault fault =>
      (.error ⟨fault, lexer.spanOf lexeme, lexer.mark.position⟩, lexer.skip lexeme)
termination_by lexer => lexer.rest.length
decreasing_by all_goals exact Lexeme.cut_rest_length_lt c cs

/-- At the end of the text a scan hands out what is waiting. -/
@[simp] theorem scan_nil (mark : Mark) (pending : Array Token) :
    scan ⟨[], mark, pending⟩ =
      (.ok (pending.push (.endAt mark)).toList, ⟨[], mark, #[]⟩) := by
  rw [scan]

/-- White space and comments are passed over. -/
theorem scan_of_blank {lexer : Lexer} {c : Char} {cs : List Char} (hrest : lexer.rest = c :: cs)
    (hfound : (Lexeme.cut c cs).found = .blank) :
    lexer.scan = (lexer.skip (Lexeme.cut c cs)).scan := by
  obtain ⟨rest, mark, pending⟩ := lexer
  subst hrest
  rw [scan]
  simp only [hfound]

/-- A token waits behind those that were read before it. -/
theorem scan_of_token {lexer : Lexer} {c : Char} {cs : List Char} {kind : Token.Kind}
    {literal : Option Literal} (hrest : lexer.rest = c :: cs)
    (hfound : (Lexeme.cut c cs).found = .token kind literal) :
    lexer.scan = ((lexer.skip (Lexeme.cut c cs)).push
      (lexer.tokenOf (Lexeme.cut c cs) kind literal)).scan := by
  obtain ⟨rest, mark, pending⟩ := lexer
  subst hrest
  rw [scan]
  simp only [hfound]

/-- A fault ends the scan, and the text at fault counts as read. -/
theorem scan_of_fault {lexer : Lexer} {c : Char} {cs : List Char} {fault : LexFault}
    (hrest : lexer.rest = c :: cs) (hfound : (Lexeme.cut c cs).found = .fault fault) :
    lexer.scan = (.error ⟨fault, lexer.spanOf (Lexeme.cut c cs), lexer.mark.position⟩,
      lexer.skip (Lexeme.cut c cs)) := by
  obtain ⟨rest, mark, pending⟩ := lexer
  subst hrest
  rw [scan]
  simp only [hfound]

end Lexer

/-- The tokens of a whole text. -/
def Token.ofSource (source : String) : Except LexError (List Token) :=
  (Lexer.ofSource source).scan.1

end KawaiiLang
