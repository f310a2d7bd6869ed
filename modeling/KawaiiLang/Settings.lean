namespace KawaiiLang

/-- What a caller may set for one run of the interpreter. -/
structure Settings where
  /-- How deep user function calls may nest, before `depthCeiling` is applied. -/
  maxCallDepth : Nat := 256
  /-- Whether the interpreter's own workings are to be logged. -/
  debug : Bool := false
  deriving DecidableEq, Inhabited

namespace Settings

/-- No run nests calls deeper than this, whatever it asks for. -/
def depthCeiling : Nat :=
  4096

/-- Asks for another call depth; requests above the ceiling are lowered to it. -/
def withMaxCallDepth (settings : Settings) (depth : Nat) : Settings :=
  { settings with maxCallDepth := min depth depthCeiling }

/-- The call depth that a run enforces. The ceiling is applied here as well, so
    that it also holds for a `maxCallDepth` written directly. -/
def callDepthLimit (settings : Settings) : Nat :=
  min settings.maxCallDepth depthCeiling

/-- The bytes of native stack that a run is given: a base for reading the program
    and for nested expressions, and a share for every call that may nest. -/
def stackSize (settings : Settings) : Nat :=
  8 * 1024 * 1024 + settings.callDepthLimit * (128 * 1024)

theorem callDepthLimit_le_ceiling (settings : Settings) :
    settings.callDepthLimit ≤ depthCeiling :=
  Nat.min_le_right ..

@[simp] theorem callDepthLimit_withMaxCallDepth (settings : Settings) (depth : Nat) :
    (settings.withMaxCallDepth depth).callDepthLimit = min depth depthCeiling := by
  simp [callDepthLimit, withMaxCallDepth]

end Settings
end KawaiiLang
