/-!
# Tolerant UTF-8

Bytes as text, whatever they are. Where bytes are no UTF-8, each longest part that could have
begun a character, or else a single byte, is replaced by one replacement character.
-/

namespace Core65C02.Text

/-- What stands for bytes that are no text. -/
def replacement : Char := '\uFFFD'

/-- The lowest and the highest value that a following byte may have. -/
abbrev ByteRange := UInt8 × UInt8

/-- Any byte that continues a character. -/
def continuation : ByteRange := (0x80, 0xBF)

/-- What a leading byte says: its own bits of the character, and the bytes that have to follow. -/
def leadingByte (b : UInt8) : Option (Nat × List ByteRange) :=
  if b < 0x80 then some (b.toNat, [])
  else if b < 0xC2 then none
  else if b < 0xE0 then some (b.toNat - 0xC0, [continuation])
  else if b = 0xE0 then some (0, [(0xA0, 0xBF), continuation])
  else if b = 0xED then some (0x0D, [(0x80, 0x9F), continuation])
  else if b < 0xF0 then some (b.toNat - 0xE0, [continuation, continuation])
  else if b = 0xF0 then some (0, [(0x90, 0xBF), continuation, continuation])
  else if b < 0xF4 then some (b.toNat - 0xF0, [continuation, continuation, continuation])
  else if b = 0xF4 then some (4, [(0x80, 0x8F), continuation, continuation])
  else none

/-- Decodes bytes after the characters in `out`, which are in reverse order. `wanted` are the bytes
that have to follow for the character of which the bits in `bits` are known; when it is empty, the
next byte is a leading one. -/
def decodeAfter (out : List Char) (bits : Nat) (wanted : List ByteRange) :
    List UInt8 → List Char
  | [] => if wanted.isEmpty then out.reverse else (replacement :: out).reverse
  | b :: rest =>
    let lead (out : List Char) : List Char × Nat × List ByteRange :=
      match leadingByte b with
      | none => (replacement :: out, 0, [])
      | some (bits, []) => (Char.ofNat bits :: out, 0, [])
      | some (bits, wanted) => (out, bits, wanted)
    let (out, bits, wanted) := match wanted with
      | [] => lead out
      | (low, high) :: later =>
        if low ≤ b ∧ b ≤ high then
          let bits := bits * 64 + b.toNat % 64
          if later.isEmpty then (Char.ofNat bits :: out, 0, []) else (out, bits, later)
        else lead (replacement :: out)
    decodeAfter out bits wanted rest

/-- The text of bytes. -/
def decodeLossy (bytes : List UInt8) : String := String.ofList (decodeAfter [] 0 [] bytes)

end Core65C02.Text
