/-!
# Base64

Three bytes become four digits of six bits each. A group of one or two bytes at the end is filled up
with padding. Decoding accepts nothing but what encoding writes: padding has to be there, and the
bits that a padded group does not use have to be clear.
-/

namespace Core65C02.Base64

/-- The sixty-four digits in the order of their values. -/
def digits : Array Char :=
  "ABCDEFGHIJKLMNOPQRSTUVWXYZabcdefghijklmnopqrstuvwxyz0123456789+/".toList.toArray

/-- The digit for a value below 64. -/
def digit (value : Nat) : Char := digits.getD value 'A'

/-- The value of a digit. -/
def digitValue? (c : Char) : Option Nat :=
  if 'A' ≤ c ∧ c ≤ 'Z' then some (c.toNat - 65)
  else if 'a' ≤ c ∧ c ≤ 'z' then some (c.toNat - 71)
  else if '0' ≤ c ∧ c ≤ '9' then some (c.toNat + 4)
  else if c = '+' then some 62
  else if c = '/' then some 63
  else none

/-- What stands for the digits that an incomplete group does not have. -/
def padding : Char := '='

/-- Encodes what follows the digits in `out`, which are in reverse order. -/
def encodeAfter (out : List Char) : List UInt8 → List Char
  | [] => out.reverse
  | [a] =>
    let n := a.toNat * 16
    (padding :: padding :: digit (n % 64) :: digit (n / 64) :: out).reverse
  | [a, b] =>
    let n := (a.toNat * 256 + b.toNat) * 4
    (padding :: digit (n % 64) :: digit (n / 64 % 64) :: digit (n / 4096) :: out).reverse
  | a :: b :: c :: rest =>
    let n := (a.toNat * 256 + b.toNat) * 256 + c.toNat
    encodeAfter
      (digit (n % 64) :: digit (n / 64 % 64) :: digit (n / 4096 % 64) :: digit (n / 262144) :: out)
      rest

/-- The text of a list of bytes. -/
def encode (bytes : List UInt8) : String := String.ofList (encodeAfter [] bytes)

/-- Decodes what follows the bytes in `out`, which are in reverse order. -/
def decodeAfter? (out : List UInt8) : List Char → Option (List UInt8)
  | [] => some out.reverse
  | p :: q :: r :: s :: rest =>
    match digitValue? p, digitValue? q, digitValue? r, digitValue? s with
    | some p, some q, some r, some s =>
      let n := ((p * 64 + q) * 64 + r) * 64 + s
      decodeAfter? (.ofNat (n % 256) :: .ofNat (n / 256 % 256) :: .ofNat (n / 65536) :: out) rest
    | some p, some q, some r, none =>
      let n := (p * 64 + q) * 64 + r
      if s = padding ∧ rest = [] ∧ n % 4 = 0 then
        some (.ofNat (n / 4 % 256) :: .ofNat (n / 1024) :: out).reverse
      else none
    | some p, some q, none, none =>
      let n := p * 64 + q
      if r = padding ∧ s = padding ∧ rest = [] ∧ n % 16 = 0 then
        some (.ofNat (n / 16) :: out).reverse
      else none
    | _, _, _, _ => none
  | _ => none

/-- The bytes that a text stands for, if it is written as `encode` would write it. -/
def decode? (text : String) : Option (List UInt8) := decodeAfter? [] text.toList

end Core65C02.Base64
