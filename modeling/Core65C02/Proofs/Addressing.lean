import Core65C02.Proofs.Arithmetic.Sum
import Core65C02.Proofs.Operand
import Core65C02.Proofs.Page
import Core65C02.Proofs.Word

/-!
# Addressing modes by arithmetic

The resolver computes with bytes and words that wrap where their types do. Here each mode has its
formula in numbers, with every remainder written out: modulo 65536 for addresses, modulo 256 for
locations in page zero. The main statement is that resolving an operand succeeds in every mode but
the implied one, refers to what the formula says, crosses a page exactly if the formula says so,
and does nothing but to move PC past the bytes of the operand.
-/

namespace Core65C02

namespace Memory

/-- The byte at an address, the address taken modulo the size of the space. -/
def byteAt (m : Memory) (n : Nat) : Nat := (m.read (.ofNat (n % 65536))).toNat

/-- The number in the byte at an address and the byte after it, the low one first. -/
def wordAt (m : Memory) (n : Nat) : Nat := m.byteAt n + 256 * m.byteAt (n + 1)

/-- The number in the byte at a location of page zero and the byte after it in that page. -/
def pointerAt (m : Memory) (n : Nat) : Nat := m.byteAt (n % 256) + 256 * m.byteAt ((n + 1) % 256)

/-- At the number of an address there is the byte that is read there. -/
theorem byteAt_toNat (m : Memory) (address : UInt16) :
    m.byteAt address.toNat = (m.read address).toNat := by
  rw [byteAt, Nat.mod_eq_of_lt address.toNat_lt, UInt16.ofNat_toNat]

/-- Numbers are taken for addresses modulo the size of the address space. -/
theorem byteAt_mod (m : Memory) (n : Nat) : m.byteAt (n % 65536) = m.byteAt n := by
  rw [byteAt, byteAt, Nat.mod_mod]

/-- The same holds of the words that begin at them. -/
theorem wordAt_mod (m : Memory) (n : Nat) : m.wordAt (n % 65536) = m.wordAt n := by
  have hnext : (n % 65536 + 1) % 65536 = (n + 1) % 65536 := by omega
  rw [wordAt, wordAt, byteAt_mod, ← byteAt_mod m (n % 65536 + 1), hnext, byteAt_mod]

/-- Locations of pointers are taken modulo the size of page zero. -/
theorem pointerAt_mod (m : Memory) (n : Nat) : m.pointerAt (n % 256) = m.pointerAt n := by
  have hnext : (n % 256 + 1) % 256 = (n + 1) % 256 := by omega
  rw [pointerAt, pointerAt, Nat.mod_mod, hnext]

/-- A word that is read has the number of its two bytes, the low one first. -/
theorem toNat_readWord (m : Memory) (address : UInt16) :
    (m.readWord address).toNat = m.wordAt address.toNat := by
  have hnext : m.byteAt (address.toNat + 1) = (m.read (address + 1)).toNat := by
    rw [← byteAt_toNat, UInt16.toNat_add, UInt16.toNat_one]
    exact (byteAt_mod ..).symm
  rw [wordAt, byteAt_toNat, hnext]
  exact toNat_wordOf ..

/-- A pointer that is read in page zero has the number of its two bytes, both in that page. -/
theorem toNat_readZeroPageWord (m : Memory) (location : UInt8) :
    (m.readZeroPageWord location).toNat = m.pointerAt location.toNat := by
  have hbyte (z : UInt8) : m.byteAt z.toNat = (m.read z.toUInt16).toNat := by
    rw [← byteAt_toNat, UInt8.toNat_toUInt16]
  have hnext : (location.toNat + 1) % 256 = (location + 1).toNat := by
    rw [UInt8.toNat_add, UInt8.toNat_one]
  rw [pointerAt, Nat.mod_eq_of_lt location.toNat_lt, hnext, hbyte, hbyte]
  exact toNat_wordOf ..

end Memory

/-- The distance that a byte stands for: bit 7 makes it negative. -/
def displacement (byte : Nat) : Int := if byte < 128 then byte else byte - 256

/-- A relative target is as far away as the distance says as a signed number, around the address
space. -/
theorem toNat_relativeTarget (origin : UInt16) (distance : UInt8) :
    (relativeTarget origin distance).toNat =
      ((origin.toNat + displacement distance.toNat) % 65536).toNat := by
  have horigin := origin.toNat_lt
  have hdistance := distance.toNat_lt
  unfold relativeTarget displacement
  rw [isNegative_eq]
  by_cases hsign : distance.toNat < 128
  · rw [decide_eq_false (by omega), if_neg Bool.false_ne_true, if_pos hsign, UInt16.sub_zero,
      UInt16.toNat_add, UInt8.toNat_toUInt16]
    omega
  · rw [decide_eq_true (by omega), if_pos rfl, if_neg hsign, UInt16.toNat_sub, UInt16.toNat_add,
      UInt8.toNat_toUInt16]
    change (2 ^ 16 - 256 + _) % 2 ^ 16 = _
    omega

namespace Cpu

section Formulas

variable (c : Cpu)

/-- Where a relative operand leads: as far behind it as its byte says. -/
def relativeNumber : Nat :=
  ((c.pc.toNat + 1 + displacement (c.memory.byteAt c.pc.toNat)) % 65536).toNat

/-- The address to which the bytes at PC refer, in the modes that refer to one: by the byte or the
word there, the index registers, and what is kept in memory. -/
def addressNumber? (mode : AddressingMode) : Option Nat :=
  let byte := c.memory.byteAt c.pc.toNat
  let word := c.memory.wordAt c.pc.toNat
  match mode with
  | .implied | .accumulator | .immediate => none
  | .absolute => some word
  | .absoluteX => some ((word + c.x.toNat) % 65536)
  | .absoluteY => some ((word + c.y.toNat) % 65536)
  | .absoluteIndirect => some (c.memory.wordAt word)
  | .absoluteIndirectX => some (c.memory.wordAt (word + c.x.toNat))
  | .relative => some c.relativeNumber
  | .zeroPage => some byte
  | .zeroPageX => some ((byte + c.x.toNat) % 256)
  | .zeroPageY => some ((byte + c.y.toNat) % 256)
  | .zeroPageIndirect => some (c.memory.pointerAt byte)
  | .zeroPageIndirectX => some (c.memory.pointerAt (byte + c.x.toNat))
  | .zeroPageIndirectY => some ((c.memory.pointerAt byte + c.y.toNat) % 65536)

/-- Whether the operand lies in another page than the address to which an index is added, or than
the instruction that follows a relative operand. -/
def Crosses (mode : AddressingMode) : Prop :=
  let byte := c.memory.byteAt c.pc.toNat
  let word := c.memory.wordAt c.pc.toNat
  match mode with
  | .absoluteX => 256 ≤ word % 256 + c.x.toNat
  | .absoluteY => 256 ≤ word % 256 + c.y.toNat
  | .zeroPageIndirectY => 256 ≤ c.memory.pointerAt byte % 256 + c.y.toNat
  | .relative => c.relativeNumber / 256 ≠ (c.pc.toNat + 1) % 65536 / 256
  | _ => False

/-- What the bytes at PC refer to: the accumulator, themselves, or the address of the formula. -/
inductive Refers : AddressingMode → Operand → Prop
  /-- The accumulator needs no bytes. -/
  | accumulator : Refers .accumulator .accumulator
  /-- The byte at PC is meant itself. -/
  | immediate : Refers .immediate (.immediate (c.memory.read c.pc))
  /-- The operand is in memory. -/
  | address {mode : AddressingMode} {address : UInt16}
    (haddress : c.addressNumber? mode = some address.toNat) : Refers mode (.address address)

end Formulas

/-- The operand that the resolver finds is the one of the formula. -/
theorem refers_of_locate {c : Cpu} {mode : AddressingMode} {r : Resolved}
    (hr : c.locate c.pc mode = some r) : c.Refers mode r.operand := by
  have hbyte := c.memory.byteAt_toNat c.pc
  have hword := c.memory.toNat_readWord c.pc
  cases mode with
  | implied => cases hr
  | accumulator =>
    cases hr
    exact .accumulator
  | immediate =>
    cases hr
    exact .immediate
  | absolute =>
    cases hr
    exact .address (congrArg some hword.symm)
  | absoluteX | absoluteY =>
    cases hr
    refine .address (congrArg some ?_)
    rw [UInt16.toNat_add, UInt8.toNat_toUInt16, hword]
  | absoluteIndirect =>
    cases hr
    refine .address (congrArg some ?_)
    rw [Memory.toNat_readWord, hword]
  | absoluteIndirectX =>
    cases hr
    refine .address (congrArg some ?_)
    rw [Memory.toNat_readWord, UInt16.toNat_add, UInt8.toNat_toUInt16, hword]
    exact (Memory.wordAt_mod ..).symm
  | relative =>
    cases hr
    refine .address (congrArg some ?_)
    rw [relativeNumber, toNat_relativeTarget, UInt16.toNat_add, UInt16.toNat_one, hbyte]
    omega
  | zeroPage =>
    cases hr
    refine .address (congrArg some ?_)
    rw [UInt8.toNat_toUInt16, hbyte]
  | zeroPageX | zeroPageY =>
    cases hr
    refine .address (congrArg some ?_)
    rw [UInt8.toNat_toUInt16, UInt8.toNat_add, hbyte]
  | zeroPageIndirect =>
    cases hr
    refine .address (congrArg some ?_)
    rw [Memory.toNat_readZeroPageWord, hbyte]
  | zeroPageIndirectX =>
    cases hr
    refine .address (congrArg some ?_)
    rw [Memory.toNat_readZeroPageWord, UInt8.toNat_add, hbyte]
    exact (Memory.pointerAt_mod ..).symm
  | zeroPageIndirectY =>
    cases hr
    refine .address (congrArg some ?_)
    rw [UInt16.toNat_add, UInt8.toNat_toUInt16, Memory.toNat_readZeroPageWord, hbyte]

/-- The resolver reports a crossing exactly if there is one. -/
theorem pageCrossed_iff_of_locate {c : Cpu} {mode : AddressingMode} {r : Resolved}
    (hr : c.locate c.pc mode = some r) : r.pageCrossed = true ↔ c.Crosses mode := by
  have hbyte := c.memory.byteAt_toNat c.pc
  have hword := c.memory.toNat_readWord c.pc
  cases mode with
  | implied => cases hr
  | absoluteX | absoluteY =>
    cases hr
    rw [indexed, pagesDiffer_add, decide_eq_true_iff, hword]
    exact Iff.rfl
  | zeroPageIndirectY =>
    cases hr
    rw [indexed, pagesDiffer_add, decide_eq_true_iff, Memory.toNat_readZeroPageWord, ← hbyte]
    exact Iff.rfl
  | relative =>
    have htarget := refers_of_locate hr
    cases hr
    cases htarget with
    | address haddress =>
      rw [pagesDiffer_eq, decide_eq_true_iff, page, page, ← Option.some.inj haddress,
        UInt16.toNat_add, UInt16.toNat_one]
      exact ne_comm
  | _ =>
    cases hr
    exact iff_of_false Bool.false_ne_true id

/-- To skip an operand is to add its length to PC, around the address space. -/
theorem skip_eq (c : Cpu) (mode : AddressingMode) :
    c.skip mode = { c with pc := .ofNat ((c.pc.toNat + mode.operandLength.toNat) % 65536) } := by
  have hpc : c.pc + mode.operandLength.toUInt16 =
      .ofNat ((c.pc.toNat + mode.operandLength.toNat) % 65536) := by
    apply UInt16.toNat_inj.mp
    rw [UInt16.toNat_add, UInt8.toNat_toUInt16, UInt16.toNat_ofNat']
    omega
  rw [skip, hpc]

/-- An address can be told in the modes that have a formula for one. -/
theorem resolveAddress_of_locate {c : Cpu} {mode : AddressingMode} {r : Resolved}
    (hr : c.locate c.pc mode = some r) :
    (c.resolveAddress mode).1 = match r.operand.address? with
      | some address => .ok (address, r.pageCrossed)
      | none => .error ((c.skip mode).modeFault mode) := by
  unfold resolveAddress
  rw [resolveOperand_eq, hr]
  simp only
  cases r.operand.address? <;> rfl

/-- Every mode but the implied one refers to what its formula says, and crosses a page exactly if
the formula says so. Finding that out moves PC past the operand and changes nothing else. The
address of the operand can be asked for except in the modes that have none. -/
theorem resolveOperand_formula (c : Cpu) (mode : AddressingMode) :
    (mode ≠ .implied → ∃ r,
      c.resolveOperand mode =
        (.ok r, { c with pc := .ofNat ((c.pc.toNat + mode.operandLength.toNat) % 65536) }) ∧
      c.Refers mode r.operand ∧ (r.pageCrossed = true ↔ c.Crosses mode)) ∧
    ((∃ fault, (c.resolveAddress mode).1 = .error fault) ↔
      mode ∈ [.implied, .accumulator, .immediate]) ∧
    ∀ address crossed, (c.resolveAddress mode).1 = .ok (address, crossed) →
      c.addressNumber? mode = some address.toNat ∧ (crossed = true ↔ c.Crosses mode) := by
  have hoperand := resolveOperand_eq c mode
  cases hr : c.locate c.pc mode with
  | none =>
    obtain rfl := locate_eq_none_iff.mp hr
    have hfault : (c.resolveAddress .implied).1 =
        .error (.unsupportedAddressingMode .implied c.instructionAddress) := rfl
    rw [hfault]
    exact ⟨fun hmode => absurd rfl hmode, ⟨fun _ => by decide, fun _ => ⟨_, rfl⟩⟩, nofun⟩
  | some r =>
    rw [hr, skip_eq] at hoperand
    have hrefers := refers_of_locate hr
    have hcrossed := pageCrossed_iff_of_locate hr
    refine ⟨fun _ => ⟨r, hoperand, hrefers, hcrossed⟩, ?_⟩
    rw [resolveAddress_of_locate hr]
    generalize r.operand = operand at hrefers
    cases hrefers with
    | accumulator | immediate => exact ⟨⟨fun _ => by decide, fun _ => ⟨_, rfl⟩⟩, nofun⟩
    | address haddress =>
      refine ⟨⟨nofun, fun hmode => ?_⟩, fun address crossed hok => ?_⟩
      · simp only [List.mem_cons, List.not_mem_nil, or_false] at hmode
        rcases hmode with rfl | rfl | rfl <;> cases haddress
      · cases hok
        exact ⟨haddress, hcrossed⟩

/-- A processor with an operand in the last byte of the address space, which names the last location
of page zero, where a pointer to the end of the space is kept. -/
def wrapping : Cpu where
  pc := 0xFFFF
  y := 0x20
  memory := ((Memory.zero.write 0xFFFF 0xFF).write 0x00FF 0xF0).write 0x0000 0xFF

/-- The operand is read at the end of the space, the pointer on both ends of page zero, and the
address wraps around too. The page that is crossed is that of the pointer. -/
theorem resolveOperand_formula_wrapping :
    AddressingMode.zeroPageIndirectY ≠ .implied ∧
      wrapping.resolveOperand .zeroPageIndirectY =
        (.ok ⟨.address 0x0010, true⟩, { wrapping with pc := 0x0000 }) := by
  have hmode : AddressingMode.zeroPageIndirectY ≠ .implied := by decide
  have hbyte : wrapping.memory.byteAt wrapping.pc.toNat = 0xFF := by
    simp [Memory.byteAt, wrapping, Memory.read_write]
  have hpointer : wrapping.memory.pointerAt 0xFF = 0xFFF0 := by
    simp [Memory.pointerAt, Memory.byteAt, wrapping, Memory.read_write]
  obtain ⟨⟨operand, crossed⟩, hresolve, hrefers, hcrossed⟩ :=
    (resolveOperand_formula wrapping .zeroPageIndirectY).1 hmode
  have hcrosses : wrapping.Crosses .zeroPageIndirectY := by
    unfold Crosses
    simp only [hbyte, hpointer]
    decide
  obtain rfl : crossed = true := hcrossed.mpr hcrosses
  cases hrefers with
  | @address _ address haddress =>
    simp only [addressNumber?, hbyte, hpointer, Option.some.injEq] at haddress
    obtain rfl : address = 0x0010 := UInt16.toNat_inj.mp haddress.symm
    exact ⟨hmode, hresolve⟩

end Cpu

end Core65C02
