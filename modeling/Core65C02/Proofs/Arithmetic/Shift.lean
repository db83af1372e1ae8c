import Core65C02.Proofs.Arithmetic.Numeral
import Core65C02.Proofs.Destination
import Core65C02.Proofs.Program
import Core65C02.Proofs.Word
import Mathlib.Data.List.Nodup
import Mathlib.Tactic.LinearCombination

/-!
# Shifts of numbers of several bytes

A program shifts a number in memory by shifting its bytes in turn, and Carry takes each bit that
falls out of one byte to the next. To the left it begins with the lowest byte, to the right with the
highest. Between two shifts it may count and branch and change pointers as it likes, if it leaves
Carry and the bytes of the number alone. The main statement says what becomes of the number; it
holds because what one shift makes of a byte, and the bit that falls out, together are still the
byte and the bit that came in.
-/

namespace Core65C02

open Numeral

/-- The bit that a shift moves into a byte. -/
def Modification.bitIn (f : Modification) (carry : Bool) : Bool :=
  match f with
  | .rotateLeft | .rotateRight => carry
  | _ => false

/-- A shift to the left doubles a byte, and nothing is lost. -/
theorem Modification.value_left {f : Modification} (hf : f ∈ [.shiftLeft, .rotateLeft])
    (carry : Bool) (b : UInt8) :
    (f.value carry b).toNat + 256 * (f.carry carry b).toNat =
      2 * b.toNat + (f.bitIn carry).toNat := by
  simp only [List.mem_cons, List.not_mem_nil, or_false] at hf
  rcases hf with rfl | rfl <;> cases carry <;> revert b <;> decide +kernel

/-- A shift to the right halves a byte, and nothing is lost. -/
theorem Modification.value_right {f : Modification} (hf : f ∈ [.shiftRight, .rotateRight])
    (carry : Bool) (b : UInt8) :
    2 * (f.value carry b).toNat + (f.carry carry b).toNat =
      b.toNat + 256 * (f.bitIn carry).toNat := by
  simp only [List.mem_cons, List.not_mem_nil, or_false] at hf
  rcases hf with rfl | rfl <;> cases carry <;> revert b <;> decide +kernel

namespace Cpu

/-- A processor of the standard dispatch is about to modify the byte of memory at an address. -/
structure Modifies (c : Cpu) (op : Modification × UInt16) : Prop where
  /-- Every mnemonic has its own operation. -/
  dispatch : c.dispatch = .standard
  /-- The instruction is at PC, and the program has not ended. -/
  modified : c.modified? = some op

/-- Carry and the bytes at some addresses are as they were. -/
structure Keeps (addresses : List UInt16) (c c' : Cpu) : Prop where
  /-- Carry has not changed. -/
  carry : c'.status.carry = c.status.carry
  /-- The bytes have not changed. -/
  bytes : ∀ address ∈ addresses, c'.memory.read address = c.memory.read address

/-- Where nothing happens, everything is kept. -/
theorem Keeps.refl (addresses : List UInt16) (c : Cpu) : Keeps addresses c c :=
  ⟨rfl, fun _ _ => rfl⟩

/-- The number whose bytes are at some addresses, the least significant first. -/
def numberAt (c : Cpu) (addresses : List UInt16) : Nat := unsigned (addresses.map c.memory.read)

/-- The number at some addresses depends on the bytes there only. -/
theorem numberAt_congr {c c' : Cpu} {addresses : List UInt16}
    (h : ∀ address ∈ addresses, c'.memory.read address = c.memory.read address) :
    c'.numberAt addresses = c.numberAt addresses :=
  congrArg unsigned (List.map_congr_left h)

/-- The byte at the first address is the lowest one of a number. -/
theorem numberAt_cons (c : Cpu) (address : UInt16) (rest : List UInt16) :
    c.numberAt (address :: rest) = (c.memory.read address).toNat + 256 * c.numberAt rest :=
  unsigned_cons _ _

/-- The byte at the last address is the highest one of a number. -/
theorem numberAt_concat (c : Cpu) (rest : List UInt16) (address : UInt16) :
    c.numberAt (rest ++ [address]) =
      c.numberAt rest + 256 ^ rest.length * (c.memory.read address).toNat := by
  simp [numberAt, unsigned, number, Nat.ofDigits_append]

/-- At some addresses there is a number below the power of 256 that belongs to their count. -/
theorem numberAt_lt (c : Cpu) (addresses : List UInt16) :
    c.numberAt addresses < 256 ^ addresses.length := by
  simpa [numberAt] using unsigned_lt (addresses.map c.memory.read)

end Cpu

/-- A sweep of shifts over bytes of memory, from one processor to another: each modification is made
at its address, in turn. Before each one and after the last the program may do anything that keeps
Carry and the bytes that matter. -/
inductive Sweep (addresses : List UInt16) : Cpu → List (Modification × UInt16) → Cpu → Prop
  /-- Nothing is left to modify. -/
  | nil {c last : Cpu} (hkeeps : c.Keeps addresses last) : Sweep addresses c [] last
  /-- The next byte is modified. -/
  | cons {c c' last : Cpu} {op : Modification × UInt16} {ops : List (Modification × UInt16)}
    (hkeeps : c.Keeps addresses c') (hmodifies : c'.Modifies op)
    (hrest : Sweep addresses c'.step.cpu ops last) : Sweep addresses c (op :: ops) last

/-- The first byte is modified in one way and the others in another. -/
def cascade (first next : Modification) : List UInt16 → List (Modification × UInt16)
  | [] => []
  | address :: rest => (first, address) :: rest.map fun address => (next, address)

namespace Sweep

variable {addresses : List UInt16} {c last : Cpu}

/-- Bytes that are not modified stay as they are. -/
theorem read_eq {ops : List (Modification × UInt16)} (hsweep : Sweep addresses c ops last)
    {address : UInt16} (hmem : address ∈ addresses) (hother : ∀ op ∈ ops, op.2 ≠ address) :
    last.memory.read address = c.memory.read address := by
  induction hsweep with
  | nil hkeeps => exact hkeeps.bytes address hmem
  | @cons c c' last op ops hkeeps hmodifies hrest ih =>
    rw [List.forall_mem_cons] at hother
    obtain ⟨pc, l, t, hstep⟩ := Cpu.step_modify hmodifies.dispatch hmodifies.modified
    rw [ih hother.2, ← hkeeps.bytes address hmem, hstep]
    exact Memory.read_write_of_ne _ _ (Ne.symm hother.1)

/-- What the first modification of a sweep does, and what is left to do after it. -/
theorem exists_rest {f : Modification} {address : UInt16} {ops : List (Modification × UInt16)}
    (hsweep : Sweep addresses c ((f, address) :: ops) last) (hmem : address ∈ addresses)
    (hother : ∀ op ∈ ops, op.2 ≠ address) :
    ∃ c', Sweep addresses c' ops last ∧
      c'.status.carry = f.carry c.status.carry (c.memory.read address) ∧
      last.memory.read address = f.value c.status.carry (c.memory.read address) ∧
      ∀ a ∈ addresses, a ≠ address → c'.memory.read a = c.memory.read a := by
  cases hsweep with
  | @cons _ c' _ _ _ hkeeps hmodifies hrest =>
    obtain ⟨pc, l, t, hstep⟩ := Cpu.step_modify hmodifies.dispatch hmodifies.modified
    have hread := hkeeps.bytes address hmem
    refine ⟨c'.step.cpu, hrest, ?_, ?_, fun a ha hne => ?_⟩
    · rw [hstep, ← hkeeps.carry, ← hread]
      rfl
    · rw [hrest.read_eq hmem hother, hstep, ← hkeeps.carry, ← hread]
      exact Memory.read_write_self _ _ _
    · rw [hstep, ← hkeeps.bytes a ha]
      exact Memory.read_write_of_ne _ _ hne

/-- The modifications of some bytes do not touch another one. -/
theorem map_other {next : Modification} {address : UInt16} {rest : List UInt16}
    (hnew : address ∉ rest) : ∀ op ∈ rest.map fun a => (next, a), op.2 ≠ address := by
  intro op hop
  obtain ⟨a, ha, rfl⟩ := List.mem_map.mp hop
  rintro rfl
  exact hnew ha

section Left

/-- One more byte below a number that was doubled. -/
theorem left_cons {f : Modification} (hf : f ∈ [.shiftLeft, .rotateLeft]) {address : UInt16}
    {rest : List UInt16} (hsub : ∀ a ∈ address :: rest, a ∈ addresses) (hnew : address ∉ rest)
    (hsweep : Sweep addresses c ((f, address) :: rest.map fun a => (.rotateLeft, a)) last)
    (hrest : ∀ c', Sweep addresses c' (rest.map fun a => (.rotateLeft, a)) last →
      last.numberAt rest + 256 ^ rest.length * last.status.carry.toNat =
        2 * c'.numberAt rest + c'.status.carry.toNat) :
    last.numberAt (address :: rest) + 256 ^ (rest.length + 1) * last.status.carry.toNat =
      2 * c.numberAt (address :: rest) + (f.bitIn c.status.carry).toNat := by
  rw [List.forall_mem_cons] at hsub
  obtain ⟨c', hsweep', hcarry, hread, hkept⟩ := hsweep.exists_rest hsub.1 (map_other hnew)
  have hnumber : c'.numberAt rest = c.numberAt rest := Cpu.numberAt_congr fun a ha =>
    hkept a (hsub.2 a ha) fun h => hnew (h ▸ ha)
  have hbyte := Modification.value_left hf c.status.carry (c.memory.read address)
  have hothers := hrest c' hsweep'
  rw [hnumber, hcarry] at hothers
  rw [Cpu.numberAt_cons, Cpu.numberAt_cons, hread, Nat.pow_succ]
  linear_combination hbyte + 256 * hothers

/-- Rotations to the left, from the lowest byte on, double a number. -/
theorem rotateLeft_eq {bytes : List UInt16} (hsub : ∀ a ∈ bytes, a ∈ addresses)
    (hnodup : bytes.Nodup) (hsweep : Sweep addresses c (bytes.map fun a => (.rotateLeft, a)) last) :
    last.numberAt bytes + 256 ^ bytes.length * last.status.carry.toNat =
      2 * c.numberAt bytes + c.status.carry.toNat := by
  induction bytes generalizing c with
  | nil =>
    cases hsweep with
    | nil hkeeps => simp [Cpu.numberAt, unsigned, number, hkeeps.carry]
  | cons address rest ih =>
    obtain ⟨hnew, hnodup⟩ := List.nodup_cons.mp hnodup
    exact left_cons (by simp) hsub hnew hsweep fun c' hrest =>
      ih (fun a ha => hsub a (List.mem_cons_of_mem _ ha)) hnodup hrest

/-- A cascade to the left doubles a number, and the carry out of it is what does not fit. -/
theorem left_eq {f : Modification} (hf : f ∈ [.shiftLeft, .rotateLeft]) (hne : addresses ≠ [])
    (hnodup : addresses.Nodup) (hsweep : Sweep addresses c (cascade f .rotateLeft addresses) last) :
    last.numberAt addresses + 256 ^ addresses.length * last.status.carry.toNat =
      2 * c.numberAt addresses + (f.bitIn c.status.carry).toNat := by
  obtain ⟨address, rest, rfl⟩ := List.exists_cons_of_ne_nil hne
  obtain ⟨hnew, hnodup⟩ := List.nodup_cons.mp hnodup
  exact left_cons hf (fun _ ha => ha) hnew hsweep fun c' hrest =>
    rotateLeft_eq (fun a ha => List.mem_cons_of_mem _ ha) hnodup hrest

end Left

section Right

/-- One more byte on top of a number that was halved. The bytes are listed from the top. -/
theorem right_cons {f : Modification} (hf : f ∈ [.shiftRight, .rotateRight]) {address : UInt16}
    {rest : List UInt16} (hsub : ∀ a ∈ address :: rest, a ∈ addresses) (hnew : address ∉ rest)
    (hsweep : Sweep addresses c ((f, address) :: rest.map fun a => (.rotateRight, a)) last)
    (hrest : ∀ c', Sweep addresses c' (rest.map fun a => (.rotateRight, a)) last →
      2 * last.numberAt rest.reverse + last.status.carry.toNat =
        c'.numberAt rest.reverse + 256 ^ rest.length * c'.status.carry.toNat) :
    2 * last.numberAt (address :: rest).reverse + last.status.carry.toNat =
      c.numberAt (address :: rest).reverse +
        256 ^ (rest.length + 1) * (f.bitIn c.status.carry).toNat := by
  rw [List.forall_mem_cons] at hsub
  obtain ⟨c', hsweep', hcarry, hread, hkept⟩ := hsweep.exists_rest hsub.1 (map_other hnew)
  have hnumber : c'.numberAt rest.reverse = c.numberAt rest.reverse :=
    Cpu.numberAt_congr fun a ha =>
      hkept a (hsub.2 a (List.mem_reverse.mp ha)) fun h => hnew (h ▸ List.mem_reverse.mp ha)
  have hbyte := Modification.value_right hf c.status.carry (c.memory.read address)
  have hothers := hrest c' hsweep'
  rw [hnumber, hcarry] at hothers
  rw [List.reverse_cons, Cpu.numberAt_concat, Cpu.numberAt_concat, List.length_reverse, hread,
    Nat.pow_succ]
  linear_combination hothers + 256 ^ rest.length * hbyte

/-- Rotations to the right, from the highest byte on, halve a number. -/
theorem rotateRight_eq {bytes : List UInt16} (hsub : ∀ a ∈ bytes, a ∈ addresses)
    (hnodup : bytes.Nodup)
    (hsweep : Sweep addresses c (bytes.map fun a => (.rotateRight, a)) last) :
    2 * last.numberAt bytes.reverse + last.status.carry.toNat =
      c.numberAt bytes.reverse + 256 ^ bytes.length * c.status.carry.toNat := by
  induction bytes generalizing c with
  | nil =>
    cases hsweep with
    | nil hkeeps => simp [Cpu.numberAt, unsigned, number, hkeeps.carry]
  | cons address rest ih =>
    obtain ⟨hnew, hnodup⟩ := List.nodup_cons.mp hnodup
    exact right_cons (by simp) hsub hnew hsweep fun c' hrest =>
      ih (fun a ha => hsub a (List.mem_cons_of_mem _ ha)) hnodup hrest

/-- A cascade to the right halves a number, and the carry out of it is the remainder. -/
theorem right_eq {f : Modification} (hf : f ∈ [.shiftRight, .rotateRight]) (hne : addresses ≠ [])
    (hnodup : addresses.Nodup)
    (hsweep : Sweep addresses c (cascade f .rotateRight addresses.reverse) last) :
    2 * last.numberAt addresses + last.status.carry.toNat =
      c.numberAt addresses + 256 ^ addresses.length * (f.bitIn c.status.carry).toNat := by
  obtain ⟨address, rest, hreverse⟩ :=
    List.exists_cons_of_ne_nil (mt List.reverse_eq_nil_iff.mp hne)
  have hbytes : addresses = (address :: rest).reverse := by rw [← hreverse, List.reverse_reverse]
  have hsub : ∀ a ∈ address :: rest, a ∈ addresses := fun a ha => by
    rw [hbytes]
    exact List.mem_reverse.mpr ha
  have hnodup' := List.nodup_reverse.mpr hnodup
  rw [hreverse] at hnodup'
  obtain ⟨hnew, hnodup'⟩ := List.nodup_cons.mp hnodup'
  rw [hreverse] at hsweep
  have hlength : addresses.length = rest.length + 1 := by rw [hbytes]; simp
  have heq := right_cons hf hsub hnew hsweep fun c' hrest =>
    rotateRight_eq (fun a ha => hsub a (List.mem_cons_of_mem _ ha)) hnodup' hrest
  rwa [← hbytes, ← hlength] at heq

end Right

end Sweep

/-! ### Programs that sweep -/

/-- The opcode that modifies the byte at the address behind it. -/
def Modification.absoluteOpcode : Modification → UInt8
  | .shiftLeft => 0x0E
  | .shiftRight => 0x4E
  | .rotateLeft => 0x2E
  | .rotateRight => 0x6E
  | .increment => 0xEE
  | .decrement => 0xCE

/-- The instruction that modifies the byte at an address: the opcode, and the address with its low
byte first. -/
def absoluteCode (op : Modification × UInt16) : List UInt8 :=
  [op.1.absoluteOpcode, op.2.toUInt8, (op.2 >>> 8).toUInt8]

/-- Every modification has a row of three bytes in which it works on a byte at any address. -/
theorem Modification.exists_absolute (f : Modification) :
    ∃ d, (standardRows.reverse.find? fun d => d.opcode == f.absoluteOpcode) = some d ∧
      d.mnemonic.modification? = some f ∧ d.mode = .absolute ∧ d.bytes = 3 := by
  cases f with
  | shiftLeft => exact ⟨.single 0x0E .asl .absolute 6, by decide +kernel, rfl, rfl, rfl⟩
  | shiftRight => exact ⟨.single 0x4E .lsr .absolute 6, by decide +kernel, rfl, rfl, rfl⟩
  | rotateLeft => exact ⟨.single 0x2E .rol .absolute 6, by decide +kernel, rfl, rfl, rfl⟩
  | rotateRight => exact ⟨.single 0x6E .ror .absolute 6, by decide +kernel, rfl, rfl, rfl⟩
  | increment => exact ⟨.single 0xEE .inc .absolute 6, by decide +kernel, rfl, rfl, rfl⟩
  | decrement => exact ⟨.single 0xCE .dec .absolute 6, by decide +kernel, rfl, rfl, rfl⟩

namespace Cpu

/-- An instruction that does not write to the program modifies the byte whose address it holds, and
goes on to the rest of the program. -/
theorem Ready.modifies {c : Cpu} {spared : UInt16 → Prop} {op : Modification × UInt16}
    {rest : List UInt8} (hspared : ¬ spared op.2)
    (hready : c.Ready spared (absoluteCode op ++ rest)) :
    c.Modifies op ∧ c.step.cpu.Ready spared rest := by
  obtain ⟨f, address⟩ := op
  obtain ⟨d, hrow, hmodification, hmode, hbytes⟩ := f.exists_absolute
  obtain ⟨-, -, -, hlow, -, hhigh, -⟩ := hready.holds
  have hd := hready.descriptor?_eq hrow
  have hword : c.memory.readWord (c.pc + 1) = address := by
    rw [Memory.readWord, hhigh, hlow]
    exact wordOf_bytes address
  have haddress : c.effectiveAddress? d = some address := by
    rw [effectiveAddress?, hmode]
    exact congrArg some hword
  have hop := Mnemonic.operation_of_modification? hmodification
  refine ⟨⟨hready.dispatch, ?_⟩, hready.step hd ?_ ?_ ?_ ?_⟩
  · rw [modified?, executing?_eq_some_iff.mpr ⟨hready.halted, hd⟩, Option.bind_some, hmodification,
      Option.bind_some, haddress]
    rfl
  · rw [hbytes]
    rfl
  · rw [successor_eq, hop]
  · intro hhalt
    rw [hop] at hhalt
    cases hhalt
  · rw [writtenBy_eq, hop, haddress]
    simpa using hspared

/-- Modifications that follow each other at once are a sweep. -/
theorem Follows.sweep {addresses : List UInt16} {c : Cpu} {ops : List (Modification × UInt16)}
    (hfollows : c.Follows Modifies ops) : Sweep addresses c ops (c.after ops.length) := by
  induction ops generalizing c with
  | nil => exact .nil (.refl addresses c)
  | cons op ops ih =>
    obtain ⟨hmodifies, hrest⟩ := hfollows
    exact .cons (.refl addresses c) hmodifies (ih hrest)

/-- A program of modifications that does not lie on the bytes which it modifies makes them in
turn. -/
theorem Ready.follows_modifies {addresses : List UInt16} {c : Cpu}
    {ops : List (Modification × UInt16)} (hops : ∀ op ∈ ops, op.2 ∈ addresses)
    (hready : c.Ready (· ∉ addresses) (ops.flatMap absoluteCode)) : c.Follows Modifies ops :=
  hready.follows fun op hop _ _ h => h.modifies (not_not_intro (hops op hop))

end Cpu

/-! ### The number after a sweep -/

/-- The highest bit of a number tells whether its double still fits. -/
theorem testBit_top {n x : Nat} (hn : n ≠ 0) (hx : x < 256 ^ n) :
    x.testBit (8 * n - 1) = decide (256 ^ n ≤ 2 * x) := by
  have hpow : 256 ^ n = 2 * 2 ^ (8 * n - 1) := by
    rw [show (256 : Nat) = 2 ^ 8 from rfl, ← Nat.pow_mul, ← Nat.pow_succ']
    congr 1
    omega
  rw [Nat.testBit_eq_decide_div_mod_eq]
  rw [hpow] at hx ⊢
  generalize 2 ^ (8 * n - 1) = weight at *
  by_cases hhigh : weight ≤ x
  · have hdiv : x / weight = 1 := Nat.div_eq_of_lt_le (by omega) (by omega)
    simp [hdiv, hhigh]
  · have hdiv : x / weight = 0 := Nat.div_eq_of_lt (by omega)
    simp [hdiv, hhigh]

namespace Sweep

variable {addresses : List UInt16} {c last : Cpu} {f : Modification}

/-- After a cascade to the left memory holds the double of the number and the bit that came in, as
far as it fits, and Carry the highest bit of the number. -/
theorem doubles (hf : f ∈ [.shiftLeft, .rotateLeft]) (hne : addresses ≠ [])
    (hnodup : addresses.Nodup) (hsweep : Sweep addresses c (cascade f .rotateLeft addresses) last) :
    last.numberAt addresses =
        (2 * c.numberAt addresses + (f.bitIn c.status.carry).toNat) % 256 ^ addresses.length ∧
      last.status.carry = (c.numberAt addresses).testBit (8 * addresses.length - 1) := by
  have hn : addresses.length ≠ 0 := mt List.length_eq_zero_iff.mp hne
  have heq := left_eq hf hne hnodup hsweep
  have hlt := last.numberAt_lt addresses
  have heven := even_size hn
  have hin := (f.bitIn c.status.carry).toNat_le
  rw [testBit_top hn (c.numberAt_lt addresses)]
  generalize 256 ^ addresses.length = size at *
  cases hcarry : last.status.carry with
  | false =>
    rw [hcarry, Bool.toNat_false, Nat.mul_zero, Nat.add_zero] at heq
    rw [← heq, Nat.mod_eq_of_lt hlt]
    exact ⟨rfl, (decide_eq_false (by omega)).symm⟩
  | true =>
    rw [hcarry, Bool.toNat_true, Nat.mul_one] at heq
    rw [← heq, Nat.add_mod_right, Nat.mod_eq_of_lt hlt]
    exact ⟨rfl, (decide_eq_true (by omega)).symm⟩

/-- After a cascade to the right memory holds half of the number, with the bit that came in on top,
and Carry the lowest bit of the number. -/
theorem halves (hf : f ∈ [.shiftRight, .rotateRight]) (hne : addresses ≠ [])
    (hnodup : addresses.Nodup)
    (hsweep : Sweep addresses c (cascade f .rotateRight addresses.reverse) last) :
    last.numberAt addresses =
        c.numberAt addresses / 2 +
          256 ^ addresses.length / 2 * (f.bitIn c.status.carry).toNat ∧
      last.status.carry = (c.numberAt addresses).testBit 0 := by
  have hn : addresses.length ≠ 0 := mt List.length_eq_zero_iff.mp hne
  have heq := right_eq hf hne hnodup hsweep
  rw [even_size hn, Nat.mul_assoc] at heq
  rw [Nat.testBit_zero]
  generalize 256 ^ addresses.length / 2 * (f.bitIn c.status.carry).toNat = top at *
  cases hcarry : last.status.carry with
  | false =>
    rw [hcarry, Bool.toNat_false, Nat.add_zero] at heq
    exact ⟨by omega, (decide_eq_false (by omega)).symm⟩
  | true =>
    rw [hcarry, Bool.toNat_true] at heq
    exact ⟨by omega, (decide_eq_true (by omega)).symm⟩

/-- Rotations to the right from the top down undo rotations to the left from the bottom up: every
byte and Carry are as they were. -/
theorem restores {mid : Cpu} (hne : addresses ≠ []) (hnodup : addresses.Nodup)
    (hup : Sweep addresses c (cascade .rotateLeft .rotateLeft addresses) mid)
    (hdown : Sweep addresses mid (cascade .rotateRight .rotateRight addresses.reverse) last) :
    (∀ address ∈ addresses, last.memory.read address = c.memory.read address) ∧
      last.status.carry = c.status.carry := by
  have hleft : mid.numberAt addresses + 256 ^ addresses.length * mid.status.carry.toNat =
      2 * c.numberAt addresses + c.status.carry.toNat := left_eq (by simp) hne hnodup hup
  have hright : 2 * last.numberAt addresses + last.status.carry.toNat =
      mid.numberAt addresses + 256 ^ addresses.length * mid.status.carry.toNat :=
    right_eq (by simp) hne hnodup hdown
  have hsame := hright.trans hleft
  have hcarry := c.status.carry.toNat_le
  have hcarry' := last.status.carry.toNat_le
  have hnumber : last.numberAt addresses = c.numberAt addresses := by omega
  have hbit : last.status.carry.toNat = c.status.carry.toNat := by omega
  refine ⟨List.map_inj_left.mp (eq_of_unsigned_eq (by simp) hnumber), ?_⟩
  rw [Bool.eq_iff_iff, ← Bool.toNat_eq_one, ← Bool.toNat_eq_one, hbit]

/-- Shifts of numbers of any length are exact. Each shift succeeds, and a program of shifts that
does not lie on the bytes which it shifts is a sweep over them. For bytes at distinct addresses, a
shift of the lowest byte and rotations of the others double the number, as far as it fits, and Carry
is its highest bit; a shift of the highest byte and rotations of the others halve it, and Carry is
its lowest bit. If the first shift is a rotation as well, the old Carry goes into the bit that has
become free. Rotations back from the highest byte, right after those up from the lowest, undo
them. -/
theorem shifts_exact (hne : addresses ≠ []) (hnodup : addresses.Nodup) :
    (∀ (c : Cpu) op, c.Modifies op → c.step.result = .ok .proceed) ∧
    (∀ (c : Cpu) ops, (∀ op ∈ ops, op.2 ∈ addresses) →
      c.Ready (· ∉ addresses) (ops.flatMap absoluteCode) →
      Sweep addresses c ops (c.after ops.length)) ∧
    (∀ c last, Sweep addresses c (cascade .shiftLeft .rotateLeft addresses) last →
      last.numberAt addresses = 2 * c.numberAt addresses % 256 ^ addresses.length ∧
      last.status.carry = (c.numberAt addresses).testBit (8 * addresses.length - 1)) ∧
    (∀ c last, Sweep addresses c (cascade .shiftRight .rotateRight addresses.reverse) last →
      last.numberAt addresses = c.numberAt addresses / 2 ∧
      last.status.carry = (c.numberAt addresses).testBit 0) ∧
    (∀ c last, Sweep addresses c (cascade .rotateLeft .rotateLeft addresses) last →
      last.numberAt addresses =
        (2 * c.numberAt addresses + c.status.carry.toNat) % 256 ^ addresses.length ∧
      last.status.carry = (c.numberAt addresses).testBit (8 * addresses.length - 1)) ∧
    (∀ c last, Sweep addresses c (cascade .rotateRight .rotateRight addresses.reverse) last →
      last.numberAt addresses =
        c.numberAt addresses / 2 + 256 ^ addresses.length / 2 * c.status.carry.toNat ∧
      last.status.carry = (c.numberAt addresses).testBit 0) ∧
    ∀ c mid last, Sweep addresses c (cascade .rotateLeft .rotateLeft addresses) mid →
      Sweep addresses mid (cascade .rotateRight .rotateRight addresses.reverse) last →
      (∀ address ∈ addresses, last.memory.read address = c.memory.read address) ∧
      last.status.carry = c.status.carry := by
  refine ⟨fun c op hmodifies => ?_, fun c ops hops hready => (hready.follows_modifies hops).sweep,
    fun c last hsweep => doubles (by simp) hne hnodup hsweep,
    fun c last hsweep => halves (by simp) hne hnodup hsweep,
    fun c last hsweep => doubles (by simp) hne hnodup hsweep,
    fun c last hsweep => halves (by simp) hne hnodup hsweep,
    fun c mid last hup hdown => restores hne hnodup hup hdown⟩
  obtain ⟨pc, l, t, hstep⟩ := Cpu.step_modify hmodifies.dispatch hmodifies.modified
  rw [hstep]

/-- A processor with Carry set, about to rotate the number `$C081`, whose bytes are far apart, to
the left and back. The program goes around the end of the address space. -/
def rolling : Cpu where
  pc := 0xFFFA
  status := { carry := true }
  memory := Memory.zero.overlay [(0xFFFA, 0x2E), (0xFFFB, 0xFF), (0xFFFD, 0x2E), (0xFFFE, 0x10),
    (0x0000, 0x6E), (0x0001, 0x10), (0x0003, 0x6E), (0x0004, 0xFF), (0x00FF, 0x81), (0x0010, 0xC0)]

/-- Its program is a rotation to the left and one back to the right, and is clear of the number. -/
theorem ready_rolling :
    rolling.Ready (· ∉ [0x00FF, 0x0010]) ((cascade .rotateLeft .rotateLeft [0x00FF, 0x0010] ++
      cascade .rotateRight .rotateRight [0x0010, 0x00FF]).flatMap absoluteCode) := by
  have hcode : (cascade .rotateLeft .rotateLeft [0x00FF, 0x0010] ++
      cascade .rotateRight .rotateRight [0x0010, 0x00FF]).flatMap absoluteCode =
      [0x2E, 0xFF, 0x00, 0x2E, 0x10, 0x00, 0x6E, 0x10, 0x00, 0x6E, 0xFF, 0x00] := by
    decide
  refine ⟨rfl, rfl, ?_⟩
  rw [hcode]
  simp [Memory.Holds, rolling, Memory.overlay, Memory.read_write, Memory.read_zero]

/-- The bit that was in Carry comes in below, the highest bit goes out, and then both return. -/
theorem shifts_exact_rolling :
    (rolling.after 2).numberAt [0x00FF, 0x0010] = 0x8103 ∧
      (rolling.after 2).status.carry = true ∧
      ((rolling.after 2).after 2).memory.read 0x00FF = 0x81 ∧
      ((rolling.after 2).after 2).memory.read 0x0010 = 0xC0 ∧
      ((rolling.after 2).after 2).status.carry = true := by
  obtain ⟨hfirst, hsecond⟩ :=
    Cpu.follows_append.mp (ready_rolling.follows_modifies (by simp [cascade]))
  have hup : Sweep [0x00FF, 0x0010] rolling
      (cascade .rotateLeft .rotateLeft [0x00FF, 0x0010]) (rolling.after 2) := hfirst.sweep
  have hdown : Sweep [0x00FF, 0x0010] (rolling.after 2)
      (cascade .rotateRight .rotateRight [0x0010, 0x00FF]) ((rolling.after 2).after 2) :=
    hsecond.sweep
  obtain ⟨-, -, -, -, hrotates, -, hrestores⟩ :=
    @shifts_exact [0x00FF, 0x0010] (List.cons_ne_nil _ _) (by simp)
  have hlow : rolling.memory.read 0x00FF = 0x81 := by
    simp [rolling, Memory.overlay, Memory.read_write]
  have hhigh : rolling.memory.read 0x0010 = 0xC0 := by
    simp [rolling, Memory.overlay, Memory.read_write]
  have hnumber : rolling.numberAt [0x00FF, 0x0010] = 0xC081 := by
    rw [Cpu.numberAt_cons, Cpu.numberAt_cons, hlow, hhigh]
    rfl
  obtain ⟨hdouble, hcarry⟩ := hrotates _ _ hup
  obtain ⟨hbytes, hsame⟩ := hrestores _ _ _ hup hdown
  rw [hnumber, show rolling.status.carry = true from rfl] at hdouble
  rw [hnumber] at hcarry
  refine ⟨hdouble.trans (by decide), hcarry.trans (by decide +kernel), ?_, ?_, hsame⟩
  · exact (hbytes 0x00FF (by simp)).trans hlow
  · exact (hbytes 0x0010 (by simp)).trans hhigh

end Sweep

end Core65C02
