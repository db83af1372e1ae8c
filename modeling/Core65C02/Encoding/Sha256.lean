import Core65C02.Text.Hex

/-!
# SHA-256

The digest of a list of bytes. The bytes are padded to blocks of 64; each block is expanded to a
schedule of 64 words, and 64 rounds mix the schedule into eight chained words.
-/

namespace Core65C02.Sha256

/-- The first 32 bits of the fractional parts of the cube roots of the first 64 primes. -/
def roundConstants : List UInt32 :=
  [0x428A2F98, 0x71374491, 0xB5C0FBCF, 0xE9B5DBA5, 0x3956C25B, 0x59F111F1,
   0x923F82A4, 0xAB1C5ED5, 0xD807AA98, 0x12835B01, 0x243185BE, 0x550C7DC3,
   0x72BE5D74, 0x80DEB1FE, 0x9BDC06A7, 0xC19BF174, 0xE49B69C1, 0xEFBE4786,
   0x0FC19DC6, 0x240CA1CC, 0x2DE92C6F, 0x4A7484AA, 0x5CB0A9DC, 0x76F988DA,
   0x983E5152, 0xA831C66D, 0xB00327C8, 0xBF597FC7, 0xC6E00BF3, 0xD5A79147,
   0x06CA6351, 0x14292967, 0x27B70A85, 0x2E1B2138, 0x4D2C6DFC, 0x53380D13,
   0x650A7354, 0x766A0ABB, 0x81C2C92E, 0x92722C85, 0xA2BFE8A1, 0xA81A664B,
   0xC24B8B70, 0xC76C51A3, 0xD192E819, 0xD6990624, 0xF40E3585, 0x106AA070,
   0x19A4C116, 0x1E376C08, 0x2748774C, 0x34B0BCB5, 0x391C0CB3, 0x4ED8AA4A,
   0x5B9CCA4F, 0x682E6FF3, 0x748F82EE, 0x78A5636F, 0x84C87814, 0x8CC70208,
   0x90BEFFFA, 0xA4506CEB, 0xBEF9A3F7, 0xC67178F2]

/-- The eight chained words. -/
structure Chain where
  (a b c d e f g h : UInt32)
deriving DecidableEq

/-- The first 32 bits of the fractional parts of the square roots of the first eight primes. -/
def Chain.start : Chain :=
  ⟨0x6A09E667, 0xBB67AE85, 0x3C6EF372, 0xA54FF53A, 0x510E527F, 0x9B05688C, 0x1F83D9AB, 0x5BE0CD19⟩

/-- Rotates a word to the right. -/
def rotate (x n : UInt32) : UInt32 := (x >>> n) ||| (x <<< (32 - n))

/-- The next word of a schedule from the words two, seven, fifteen and sixteen places back. -/
def nextWord (w2 w7 w15 w16 : UInt32) : UInt32 :=
  let σ0 := rotate w15 7 ^^^ rotate w15 18 ^^^ (w15 >>> 3)
  let σ1 := rotate w2 17 ^^^ rotate w2 19 ^^^ (w2 >>> 10)
  σ1 + w7 + σ0 + w16

/-- Adds words to a schedule until `count` more are there. -/
def expand : (count : Nat) → Array UInt32 → Array UInt32
  | 0, words => words
  | count + 1, words =>
    let back (n : Nat) := words.getD (words.size - n) 0
    expand count (words.push (nextWord (back 2) (back 7) (back 15) (back 16)))

/-- One round with a word of the schedule and the constant of the round. -/
def Chain.mix (s : Chain) (word constant : UInt32) : Chain :=
  let sum1 := rotate s.e 6 ^^^ rotate s.e 11 ^^^ rotate s.e 25
  let choice := (s.e &&& s.f) ^^^ (~~~s.e &&& s.g)
  let t1 := s.h + sum1 + choice + constant + word
  let sum0 := rotate s.a 2 ^^^ rotate s.a 13 ^^^ rotate s.a 22
  let majority := (s.a &&& s.b) ^^^ (s.a &&& s.c) ^^^ (s.b &&& s.c)
  ⟨t1 + (sum0 + majority), s.a, s.b, s.c, s.d + t1, s.e, s.f, s.g⟩

/-- Chains a block, given as its sixteen words. -/
def Chain.absorb (s : Chain) (block : Array UInt32) : Chain :=
  let words := (expand 48 block).toList
  let t := (words.zip roundConstants).foldl (fun s (word, constant) => s.mix word constant) s
  ⟨s.a + t.a, s.b + t.b, s.c + t.c, s.d + t.d, s.e + t.e, s.f + t.f, s.g + t.g, s.h + t.h⟩

/-- The word of four bytes, the most significant first. -/
def word (p q r s : UInt8) : UInt32 :=
  (p.toUInt32 <<< 24) ||| (q.toUInt32 <<< 16) ||| (r.toUInt32 <<< 8) ||| s.toUInt32

/-- Chains bytes. `block` holds the words of the block that is not complete yet. -/
def Chain.absorbAll (s : Chain) (block : Array UInt32) : List UInt8 → Chain
  | p :: q :: r :: t :: rest =>
    let block := block.push (word p q r t)
    if block.size = 16 then (s.absorb block).absorbAll #[] rest else s.absorbAll block rest
  | _ => s

/-- The bytes of a number, the most significant of `count` first. -/
def bigEndian : (count : Nat) → Nat → List UInt8
  | 0, _ => []
  | count + 1, n => bigEndian count (n / 256) ++ [UInt8.ofNat n]

/-- What is appended to `length` bytes: a set bit, zeros up to the last eight bytes of a block, and
the length in bits. -/
def pad (length : Nat) : List UInt8 :=
  0x80 :: (List.replicate ((119 - length % 64) % 64) 0 ++ bigEndian 8 (length * 8))

/-- The digest of bytes, as eight words. -/
def digest (bytes : List UInt8) : List UInt32 :=
  let s := Chain.start.absorbAll #[] (bytes ++ pad bytes.length)
  [s.a, s.b, s.c, s.d, s.e, s.f, s.g, s.h]

/-- The digest of bytes as lower-case hexadecimal text. -/
def hexDigest (bytes : List UInt8) : String :=
  Hex.ofBytes ((digest bytes).flatMap fun word => bigEndian 4 word.toNat)

end Core65C02.Sha256
