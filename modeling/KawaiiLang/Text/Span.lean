namespace KawaiiLang

/-- A stretch of text given by character offsets: `start` is its first
    character and `stop` the one just after its last. Nothing forces
    `start ≤ stop`, because spans handed in from outside are kept as they are. -/
structure Span where
  start : Nat
  stop : Nat
  deriving DecidableEq, Inhabited

namespace Span

/-- The span of the one character at `offset`. -/
def single (offset : Nat) : Span :=
  ⟨offset, offset + 1⟩

/-- From the start of `first` to whichever of the two ends lies further on, so
    that joining a span to an earlier one never cuts it short. -/
def through (first last : Span) : Span :=
  ⟨first.start, max last.stop first.stop⟩

@[simp] theorem start_through (first last : Span) : (first.through last).start = first.start :=
  rfl

@[simp] theorem stop_through (first last : Span) :
    (first.through last).stop = max last.stop first.stop :=
  rfl

end Span
end KawaiiLang
