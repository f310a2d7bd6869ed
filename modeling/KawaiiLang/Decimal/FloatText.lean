import KawaiiLang.Decimal.Shortest

namespace KawaiiLang

/-- A finite size as text: an integral one with all its digits and one zero behind
    the point, any other with the fewest digits that read back. Exponents are never
    written. -/
def Dyadic.text (size : Dyadic) : String :=
  if size.isIntegral then s!"{size.floor}.0" else size.shortest.positional

/-- A float as text. Zero keeps its sign. -/
def FloatShape.text : FloatShape → String
  | notNumber => "NaN"
  | infinite negative => if negative then "-inf" else "inf"
  | finite negative size => if negative then s!"-{size.text}" else size.text

/-- How a program shows a float. -/
def floatText (value : Float) : String :=
  (FloatShape.ofBits value.toBits.toNat).text

end KawaiiLang
