import KawaiiLang.Stream.Fault
import KawaiiLang.Text.Blank

namespace KawaiiLang

/-- The bytes that can still be read. -/
structure Input where
  bytes : List UInt8 := []
  deriving DecidableEq, Inhabited

/-- A line of input as it was read, its line feed included. Only the last line can
    be without one. -/
structure InputLine where
  bytes : List UInt8
  deriving DecidableEq, Inhabited

namespace InputLine

/-- The text of a line, unless its bytes are no text. -/
def text? (line : InputLine) : Option String :=
  String.fromUTF8? ⟨line.bytes.toArray⟩

/-- A line's text without the line feeds and carriage returns that end it. -/
def content (text : String) : String :=
  String.ofList (Text.dropEndWhile (fun c => c = '\n' || c = '\r') text.toList)

end InputLine

namespace Input

/-- The byte that ends a line. -/
def lineFeed : UInt8 :=
  10

/-- The first line and what follows it, for a list of bytes. -/
def splitLine : List UInt8 → List UInt8 × List UInt8
  | [] => ([], [])
  | byte :: bytes =>
    if byte = lineFeed then ([byte], bytes)
    else ((byte :: (splitLine bytes).1), (splitLine bytes).2)

/-- Takes the next line off the input, whether or not it is text. At the end there
    is none. -/
def readLine? (input : Input) : Option (InputLine × Input) :=
  if input.bytes.isEmpty then none
  else some (⟨(splitLine input.bytes).1⟩, ⟨(splitLine input.bytes).2⟩)

end Input
end KawaiiLang
