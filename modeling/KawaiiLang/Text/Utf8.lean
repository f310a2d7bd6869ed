namespace KawaiiLang.Utf8

/-- Stands for bytes that are no character. -/
def replacement : Char :=
  '\uFFFD'

/-- Whether `byte` lies between `low` and `high`, both included. -/
def within (low high byte : UInt8) : Bool :=
  low ≤ byte && byte ≤ high

/-- What the first byte of a character asks of the bytes behind it: the bits of the
    code point that it holds itself, and the range of each further byte. Only the
    second byte is ever held to less than all continuation bytes, which shuts out
    code points written too long, surrogates and numbers above the last one. -/
def lead? (byte : UInt8) : Option (Nat × List (UInt8 × UInt8)) :=
  let all : UInt8 × UInt8 := (0x80, 0xbf)
  if byte < 0x80 then some (byte.toNat, [])
  else if within 0xc2 0xdf byte then some (byte.toNat - 0xc0, [all])
  else if byte = 0xe0 then some (0, [(0xa0, 0xbf), all])
  else if byte = 0xed then some (13, [(0x80, 0x9f), all])
  else if within 0xe1 0xef byte then some (byte.toNat - 0xe0, [all, all])
  else if byte = 0xf0 then some (0, [(0x90, 0xbf), all, all])
  else if within 0xf1 0xf3 byte then some (byte.toNat - 0xf0, [all, all, all])
  else if byte = 0xf4 then some (4, [(0x80, 0x8f), all, all])
  else none

/-- Reads the further bytes of a character onto the bits read so far. Where a byte
    is missing or out of its range the character is given up, and that byte is left
    to begin the next one. -/
def follow (bits : Nat) : List (UInt8 × UInt8) → List UInt8 → Char × List UInt8
  | [], rest => (Char.ofNat bits, rest)
  | _ :: _, [] => (replacement, [])
  | (low, high) :: ranges, byte :: rest =>
    if within low high byte then follow (bits * 64 + (byte.toNat - 0x80)) ranges rest
    else (replacement, byte :: rest)

theorem follow_length_le (bits : Nat) (ranges : List (UInt8 × UInt8)) (bytes : List UInt8) :
    (follow bits ranges bytes).2.length ≤ bytes.length := by
  fun_induction follow bits ranges bytes <;> grind

/-- The characters of `bytes`, with a replacement for every longest stretch that
    begins a character and does not complete it. -/
def chars : List UInt8 → List Char
  | [] => []
  | byte :: rest =>
    match lead? byte with
    | none => replacement :: chars rest
    | some (bits, ranges) =>
      let next := follow bits ranges rest
      next.1 :: chars next.2
termination_by bytes => bytes.length
decreasing_by
  · simp
  · have := follow_length_le bits ranges rest
    simp only [List.length_cons]
    omega

/-- The text that `bytes` stand for. Bytes that are well formed are taken as they
    are, and others character by character. -/
def decode (bytes : ByteArray) : String :=
  (String.fromUTF8? bytes).getD (String.ofList (chars bytes.data.toList))

end KawaiiLang.Utf8
