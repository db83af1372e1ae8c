import Core65C02.Proofs.Frame
import Core65C02.Proofs.Halt

/-!
# Straight-line programs

Instructions that neither branch nor end the program are executed one after the other, as long as
none of them writes to the bytes of those that follow. What is needed is that the bytes of the
program lie at addresses that are spared by all writes. The main statement is that each instruction
then does what its bytes say, so a program that is in memory at the start says what a run executes.
-/

namespace Core65C02

namespace Memory

/-- The bytes of a program are in memory from `pc` on and around the end of the space, all of them
at addresses that are spared. -/
def Holds (m : Memory) (spared : UInt16 → Prop) : UInt16 → List UInt8 → Prop
  | _, [] => True
  | pc, b :: code => spared pc ∧ m.read pc = b ∧ m.Holds spared (pc + 1) code

variable {m m' : Memory} {spared : UInt16 → Prop} {pc : UInt16}

/-- Memory holds a program of two parts if it holds the first and behind it the second. -/
theorem holds_append {front rest : List UInt8} :
    m.Holds spared pc (front ++ rest) ↔
      m.Holds spared pc front ∧ m.Holds spared (pc + .ofNat front.length) rest := by
  induction front generalizing pc with
  | nil =>
    have hstart : pc + .ofNat ([] : List UInt8).length = pc := UInt16.add_zero pc
    rw [hstart, List.nil_append, Holds, true_and]
  | cons b front ih =>
    have hstart : pc + .ofNat (b :: front).length = pc + 1 + .ofNat front.length := by
      rw [List.length_cons, UInt16.ofNat_add, UInt16.add_assoc, UInt16.add_comm (.ofNat _)]
      rfl
    rw [hstart, List.cons_append, Holds, Holds, ih, and_assoc, and_assoc]

/-- Writes to other addresses do not touch a program. -/
theorem Holds.of_agree {code : List UInt8} (hholds : m.Holds spared pc code)
    (hagree : ∀ address, spared address → m'.read address = m.read address) :
    m'.Holds spared pc code := by
  induction code generalizing pc with
  | nil => trivial
  | cons b code ih =>
    obtain ⟨hspared, hread, hrest⟩ := hholds
    exact ⟨hspared, (hagree pc hspared).trans hread, ih hrest⟩

end Memory

namespace Cpu

/-- A processor of the standard dispatch is about to execute the program `code`, whose bytes lie at
addresses that are spared. -/
structure Ready (spared : UInt16 → Prop) (code : List UInt8) (c : Cpu) : Prop where
  /-- Every mnemonic has its own operation. -/
  dispatch : c.dispatch = .standard
  /-- The program has not ended. -/
  halted : c.halted = false
  /-- The program is at PC. -/
  holds : c.memory.Holds spared c.pc code

/-- Each of the next steps does one of some things, in turn. -/
def Follows {α : Type} (does : Cpu → α → Prop) : Cpu → List α → Prop
  | _, [] => True
  | c, x :: xs => does c x ∧ c.step.cpu.Follows does xs

/-- Steps do things in two parts if the first steps do the first of them and the steps after these
do the others. -/
theorem follows_append {α : Type} {does : Cpu → α → Prop} {c : Cpu} {xs ys : List α} :
    c.Follows does (xs ++ ys) ↔ c.Follows does xs ∧ (c.after xs.length).Follows does ys := by
  induction xs generalizing c with
  | nil => exact (true_and _).symm.to_iff
  | cons x xs ih => rw [List.cons_append, Follows, Follows, ih, and_assoc]; rfl

variable {c : Cpu} {spared : UInt16 → Prop} {front rest : List UInt8}

/-- The first byte of a program is the opcode that comes next. -/
theorem Ready.descriptor?_eq {b : UInt8} {d : Descriptor} (hready : c.Ready spared (b :: rest))
    (hrow : (standardRows.reverse.find? fun d => d.opcode == b) = some d) :
    c.descriptor? = some d := by
  obtain ⟨-, hopcode, -⟩ := hready.holds
  rw [descriptor?_eq_find?, opcode, hopcode, hrow]

/-- An instruction that goes on to the next one, and writes nowhere where it is not allowed to,
leads to the rest of the program. -/
theorem Ready.step {d : Descriptor} (hready : c.Ready spared (front ++ rest))
    (hd : c.descriptor? = some d) (hlength : front.length = d.bytes.toNat)
    (hfollowing : c.successor d = c.following d) (hgoesOn : d.mnemonic.operation ≠ .halt)
    (hwrites : ∀ address ∈ c.writtenBy d, ¬ spared address) : c.step.cpu.Ready spared rest := by
  obtain ⟨hdispatch, hhalted, hholds⟩ := hready
  obtain ⟨o, ho, hnext, hstep⟩ := step_standard hdispatch hhalted hd
  have hpc : c.step.cpu.pc = c.pc + .ofNat front.length := by
    have hpc := executed_pc (descriptor?_mem hd).1 ho hnext
    rw [hfollowing, following] at hpc
    rw [hstep, hlength, UInt16.ofNat_uInt8ToNat]
    exact hpc
  have hhalted' : c.step.cpu.halted = false := by
    rw [Bool.eq_false_iff, ne_eq, ← step_result_eq_finished_iff, hstep, Except.ok.injEq,
      result_eq_finished_iff]
    exact hgoesOn
  refine ⟨(step_dispatch c).trans hdispatch, hhalted', ?_⟩
  rw [hpc]
  refine (Memory.holds_append.mp hholds).2.of_agree fun address hspared => ?_
  rw [hstep]
  exact executed_memory_frame ho fun hwritten => hwrites address hwritten hspared

/-- If each instruction does what its bytes say and leads to what is behind it, the program does
what it says and leads to what is behind it. -/
theorem Ready.follows_rest {α : Type} {does : Cpu → α → Prop} {bytes : α → List UInt8} {xs : List α}
    (hstep : ∀ x ∈ xs, ∀ (c : Cpu) rest, c.Ready spared (bytes x ++ rest) →
      does c x ∧ c.step.cpu.Ready spared rest)
    (hready : c.Ready spared (xs.flatMap bytes ++ rest)) :
    c.Follows does xs ∧ (c.after xs.length).Ready spared rest := by
  induction xs generalizing c with
  | nil => exact ⟨trivial, hready⟩
  | cons x xs ih =>
    rw [List.forall_mem_cons] at hstep
    rw [List.flatMap_cons, List.append_assoc] at hready
    obtain ⟨hdoes, hready⟩ := hstep.1 c _ hready
    obtain ⟨hfollows, hready⟩ := ih hstep.2 hready
    exact ⟨⟨hdoes, hfollows⟩, hready⟩

/-- A program of instructions that do what their bytes say does what it says. -/
theorem Ready.follows {α : Type} {does : Cpu → α → Prop} {bytes : α → List UInt8} {xs : List α}
    (hstep : ∀ x ∈ xs, ∀ (c : Cpu) rest, c.Ready spared (bytes x ++ rest) →
      does c x ∧ c.step.cpu.Ready spared rest)
    (hready : c.Ready spared (xs.flatMap bytes)) : c.Follows does xs := by
  rw [← List.append_nil (xs.flatMap bytes)] at hready
  exact (follows_rest hstep hready).1

end Cpu

end Core65C02
