import Core65C02.Text.Hex

/-!
# Identifiers

A checkpoint is told from all others by a random identifier: 128 bits in five groups of hexadecimal
digits, six of the bits saying that the others are random.
-/

namespace Core65C02.Identifier

/-- Marks sixteen random bytes as such: four bits of the seventh and two of the ninth are fixed. -/
def mark (bytes : List UInt8) : List UInt8 :=
  bytes.zipIdx.map fun (b, i) =>
    if i = 6 then (b &&& 0x0F) ||| 0x40 else if i = 8 then (b &&& 0x3F) ||| 0x80 else b

/-- The groups of bytes, each with the number of its bytes. -/
def groups : List Nat → List UInt8 → List (List UInt8)
  | [], _ => []
  | n :: rest, bytes => bytes.take n :: groups rest (bytes.drop n)

/-- The identifier of sixteen random bytes. -/
def ofRandom (bytes : List UInt8) : String :=
  "-".intercalate ((groups [4, 2, 2, 2, 6] (mark bytes)).map Hex.ofBytes)

end Core65C02.Identifier
