import KawaiiLang.Diagnostic

namespace KawaiiLang.Diagnostic

/-- What went wrong, under the heading of a report. -/
def headline (diagnostic : Diagnostic) : String :=
  match diagnostic.kind with
  | .lexical => s!"Lexical Error: {diagnostic.message}"
  | .syntactic => s!"Syntax Error: {diagnostic.message}"
  | .runtime kind => s!"Runtime Error [{kind.name}]: {diagnostic.message}"

/-- Whether the span can be marked in a text of `length` characters. The place just
    behind the text still counts. -/
def liesIn (diagnostic : Diagnostic) (length : Nat) : Bool :=
  let span := diagnostic.span
  span.start ≤ length && (span.start < span.stop → span.stop ≤ length + 1)

/-- The lines of a report against the text `source`: the headline, and the hint if
    the error can be marked in that text. An error in a function that was read from
    another text may lie outside of it. -/
def report (diagnostic : Diagnostic) (source : String) : List String :=
  let heading := s!"Error: {diagnostic.headline}"
  match diagnostic.help with
  | some help =>
    if diagnostic.liesIn source.length then [heading, s!"Note: help: {help}"] else [heading]
  | none => [heading]

end KawaiiLang.Diagnostic
