/-!
# The address space

Memory is a flat image of 65536 bytes, one for every 16-bit address, so a read can never miss. Words
are little-endian, and the two bytes of a word are adjacent modulo the size of the space (or, for
pointers kept in page zero, modulo the size of that page).
-/

namespace Core65C02

/-- The byte held at each of the 65536 addresses. -/
structure Memory where
  /-- The bytes in address order. -/
  bytes : Vector UInt8 65536
deriving DecidableEq

namespace Memory

/-- The number of addresses. -/
def size : Nat := 65536

/-- The image in which every byte is zero. -/
def zero : Memory := ⟨Vector.replicate 65536 0⟩

instance : Inhabited Memory := ⟨zero⟩

/-- The byte at an address. -/
@[inline]
def read (m : Memory) (address : UInt16) : UInt8 :=
  have h : address.toNat < 65536 := address.toNat_lt
  m.bytes[address.toNat]

/-- The image that holds `value` at `address` and agrees with `m` elsewhere. -/
@[inline]
def write (m : Memory) (address : UInt16) (value : UInt8) : Memory :=
  have h : address.toNat < 65536 := address.toNat_lt
  ⟨m.bytes.set address.toNat value⟩

theorem read_zero (address : UInt16) : zero.read address = 0 := by
  simp [read, zero]

theorem read_write_self (m : Memory) (address : UInt16) (value : UInt8) :
    (m.write address value).read address = value := by
  simp [read, write]

theorem read_write_of_ne (m : Memory) {a b : UInt16} (value : UInt8) (h : b ≠ a) :
    (m.write a value).read b = m.read b := by
  have hn : a.toNat ≠ b.toNat := fun e => h (UInt16.toNat_inj.mp e.symm)
  simp [read, write, hn]

/-- A read after a write sees the new byte at the written address and the old one elsewhere. -/
theorem read_write (m : Memory) (a b : UInt16) (value : UInt8) :
    (m.write a value).read b = if b = a then value else m.read b := by
  by_cases h : b = a
  · subst h
    simp [read_write_self]
  · simp [h, read_write_of_ne]

/-- Two images that agree at every address are equal. -/
theorem ext_read {m n : Memory} (h : ∀ address, m.read address = n.read address) : m = n := by
  obtain ⟨xs⟩ := m
  obtain ⟨ys⟩ := n
  congr
  refine Vector.ext fun i hi => ?_
  have hn : (UInt16.ofNat i).toNat = i := by
    rw [UInt16.toNat_ofNat']
    exact Nat.mod_eq_of_lt (by simpa using hi)
  simpa [read, hn] using h (UInt16.ofNat i)

/-- The little-endian word at an address; its high byte wraps from the last address to the first. -/
def readWord (m : Memory) (address : UInt16) : UInt16 :=
  ((m.read (address + 1)).toUInt16 <<< 8) ||| (m.read address).toUInt16

/-- The little-endian pointer kept at a page-zero location; its high byte wraps within that page. -/
def readZeroPageWord (m : Memory) (location : UInt8) : UInt16 :=
  ((m.read (location + 1).toUInt16).toUInt16 <<< 8) ||| (m.read location.toUInt16).toUInt16

/-- Stores a word little-endian, its high byte at the next address modulo the size of the space. -/
def writeWord (m : Memory) (address value : UInt16) : Memory :=
  (m.write address value.toUInt8).write (address + 1) (value >>> 8).toUInt8

/-- Writes bytes at consecutive addresses from `start` on, and stops at the end of the space. -/
def place : List UInt8 → Nat → Memory → Memory
  | [], _, m => m
  | b :: rest, start, m =>
    if h : start < 65536 then place rest (start + 1) ⟨m.bytes.set start b⟩ else m

/-- Copies bytes to `start` and the addresses after it. What does not fit below the end of the space
is dropped; nothing wraps to address zero. -/
def load (m : Memory) (bytes : List UInt8) (start : UInt16) : Memory :=
  place bytes start.toNat m

/-- How many of `count` bytes fit when they are loaded at `start`. -/
def loadedCount (count : Nat) (start : UInt16) : Nat :=
  min count (size - start.toNat)

/-- Applies overrides in order, so that the last one for an address wins. -/
def overlay (m : Memory) (entries : List (UInt16 × UInt8)) : Memory :=
  entries.foldl (fun image entry => image.write entry.1 entry.2) m

/-- The addresses in ascending order. -/
def addresses : List UInt16 :=
  (List.range size).map UInt16.ofNat

/-- Every address that holds a byte other than zero, with that byte, in ascending order. -/
def nonZero (m : Memory) : List (UInt16 × UInt8) :=
  (addresses.map fun address => (address, m.read address)).filter fun entry => entry.2 != 0

/-- The image as a list of bytes in address order. -/
def toList (m : Memory) : List UInt8 := m.bytes.toList

end Memory

end Core65C02
