import KawaiiLang.Stream.Fault

namespace KawaiiLang

/-- What a sink can be asked to do. -/
inductive Request where
  | write (text : String)
  | flush
  deriving DecidableEq, Inhabited

/-- Which texts a sink takes. That may depend on the bytes that it keeps, and on all
    that was asked of it before, the last request first. -/
structure Capacity where
  /-- How many bytes of a text are kept and why the others are not, unless the whole
      text is taken. -/
  refusal? : ByteArray → List Request → String → Option (Nat × String)

/-- The capacity for a number of bytes, or for any number. What still fits of a text is
    kept. -/
def Capacity.ofNat? (bound : Option Nat) : Capacity where
  refusal? kept _ text :=
    match bound with
    | none => none
    | some bound =>
      let room := bound - kept.size
      if room < text.toUTF8.size then some (room, "sink is full") else none

instance : Coe (Option Nat) Capacity :=
  ⟨.ofNat?⟩

instance : Inhabited Capacity :=
  ⟨.ofNat? none⟩

/-- Which flushes of a sink succeed, with the same freedom. -/
structure FlushLimit where
  /-- Why a flush fails, if it does. -/
  refusal? : ByteArray → List Request → Option String

/-- The limit to a number of flushes, or to none. -/
def FlushLimit.ofNat? (bound : Option Nat) : FlushLimit where
  refusal? _ asked :=
    match bound with
    | none => none
    | some bound => if asked.count .flush < bound then none else some "flush refused"

instance : Coe (Option Nat) FlushLimit :=
  ⟨.ofNat?⟩

instance : Inhabited FlushLimit :=
  ⟨.ofNat? none⟩

/-- Where output goes. A sink may refuse what it is asked to do, for any reason, and do
    it the next time. -/
structure Sink where
  /-- The bytes written and kept so far. -/
  kept : ByteArray := .empty
  capacity : Capacity := .ofNat? none
  flushLimit : FlushLimit := .ofNat? none
  /-- All that was asked so far, the last request first. -/
  asked : List Request := []
  deriving Inhabited

namespace Sink

/-- How often the sink has been asked to pass on what was written. -/
def flushes (sink : Sink) : Nat :=
  sink.asked.count .flush

/-- Writes a text. If the sink refuses it, some of it may have been kept. Writing
    nothing asks nothing of the sink. -/
def write (sink : Sink) (text : String) : Except StreamFault Unit × Sink :=
  if text.isEmpty then (.ok (), sink)
  else
    let asked := .write text :: sink.asked
    match sink.capacity.refusal? sink.kept sink.asked text with
    | none => (.ok (), { sink with kept := sink.kept ++ text.toUTF8, asked })
    | some (taken, reason) =>
      (.error (.refused reason),
        { sink with kept := sink.kept ++ text.toUTF8.extract 0 taken, asked })

/-- Asks for everything written to be passed on. -/
def flush (sink : Sink) : Except StreamFault Unit × Sink :=
  let result := match sink.flushLimit.refusal? sink.kept sink.asked with
    | none => .ok ()
    | some reason => .error (.refused reason)
  (result, { sink with asked := .flush :: sink.asked })

/-- How many bytes of a text would be kept. -/
def taken (sink : Sink) (text : String) : Nat :=
  match sink.capacity.refusal? sink.kept sink.asked text with
  | none => text.toUTF8.size
  | some (taken, _) => taken

/-- Writing nothing changes nothing. -/
theorem write_empty (sink : Sink) : sink.write "" = (.ok (), sink) :=
  rfl

/-- A write changes nothing but the bytes kept, and those only at their end. -/
theorem write_snd (sink : Sink) {text : String} (htext : text ≠ "") :
    (sink.write text).2 =
      { sink with
        kept := sink.kept ++ text.toUTF8.extract 0 (sink.taken text)
        asked := .write text :: sink.asked } := by
  have hempty : text.isEmpty = false := by simpa using htext
  unfold write taken
  rw [hempty]
  cases sink.capacity.refusal? sink.kept sink.asked text with
  | none =>
    dsimp only
    rw [ByteArray.extract_zero_size]
    rfl
  | some refusal => rfl

end Sink
end KawaiiLang
