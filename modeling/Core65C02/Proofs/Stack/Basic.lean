import Core65C02.Cpu.Basic
import Core65C02.Proofs.Word

/-!
# Bytes on the stack

The stack grows downwards in page one, and its pointer wraps within that page. Bytes that have been
pushed since the pointer was `base` lie in slots that are numbered from `base` on, and up to 256 of
them are in different slots, wherever `base` is. Pushing fills the next slot, pulling empties the
last one, and nothing else is written.
-/

namespace Core65C02

open Cpu (stackAddress)

/-- The address of the byte that is pushed when there are `n` bytes on a stack that began at `base`:
it lies in page one, `n` bytes below `base` modulo 256. -/
def slot (base : UInt8) (n : Nat) : UInt16 := stackAddress (base - .ofNat n)

/-- The sum with the start of page one never wraps. -/
theorem toNat_stackAddress (s : UInt8) : (stackAddress s).toNat = 0x0100 + s.toNat := by
  have hs := s.toNat_lt
  rw [stackAddress, UInt16.toNat_add, UInt8.toNat_toUInt16]
  change (0x0100 + s.toNat) % 65536 = _
  exact Nat.mod_eq_of_lt (by omega)

/-- The slots of a stack go down from its base and around page one. -/
theorem toNat_slot (base : UInt8) (n : Nat) :
    ((slot base n).toNat : Int) = 0x0100 + ((base.toNat : Int) - n) % 256 := by
  have hbase := base.toNat_lt
  have hpointer : (base - .ofNat n).toNat = (256 - n % 256 + base.toNat) % 256 := by
    rw [UInt8.toNat_sub, UInt8.toNat_ofNat']
  rw [slot, toNat_stackAddress]
  omega

/-- The slots of up to 256 bytes are different. -/
theorem slot_ne {base : UInt8} {i j : Nat} (hij : i < j) (hj : j < i + 256) :
    slot base i ≠ slot base j := by
  intro heq
  have hi := toNat_slot base i
  have hj' := toNat_slot base j
  rw [heq] at hi
  omega

/-- Every slot is in page one. -/
theorem slot_in_page (base : UInt8) (n : Nat) :
    0x0100 ≤ (slot base n).toNat ∧ (slot base n).toNat ≤ 0x01FF := by
  have hslot := toNat_slot base n
  omega

/-- To step down is to leave room for one byte more. -/
theorem pointer_sub_one (base : UInt8) (n : Nat) :
    base - .ofNat n - 1 = base - .ofNat (n + 1) := by
  apply UInt8.toNat_inj.mp
  simp only [UInt8.toNat_sub, UInt8.toNat_ofNat', UInt8.toNat_one]
  omega

/-- To step up is to leave room for one byte less. -/
theorem pointer_add_one (base : UInt8) (n : Nat) :
    base - .ofNat (n + 1) + 1 = base - .ofNat n := by
  rw [← pointer_sub_one, UInt8.sub_add_cancel]

/-- A memory and a stack pointer have come from the memory `before` and the pointer `base` by keeping
the bytes of `stack`, the newest first, on the stack and by using no more than `room` slots. -/
structure Stacked (before : Memory) (base : UInt8) (room : Nat) (m : Memory) (s : UInt8)
    (stack : List UInt8) : Prop where
  /-- There is room for the bytes. -/
  length_le : stack.length ≤ room
  /-- The pointer stands for the first free slot. -/
  pointer : s = base - .ofNat stack.length
  /-- The bytes fill the slots from the oldest to the newest. -/
  read_slot : ∀ i b, stack.reverse[i]? = some b → m.read (slot base i) = b
  /-- Elsewhere nothing has changed. -/
  frame : ∀ address, (∀ i < room, address ≠ slot base i) → m.read address = before.read address

namespace Stacked

variable {before m : Memory} {base s b : UInt8} {room : Nat} {stack : List UInt8}

/-- At first there is nothing on the stack. -/
theorem empty (before : Memory) (base : UInt8) (room : Nat) :
    Stacked before base room before base [] where
  length_le := Nat.zero_le room
  pointer := (UInt8.sub_zero base).symm
  read_slot := nofun
  frame := fun _ _ => rfl

/-- The pointer stands for the first slot that is free. -/
theorem stackAddress_eq (h : Stacked before base room m s stack) :
    stackAddress s = slot base stack.length := by
  rw [slot, h.pointer]

/-- A byte is pushed into the next slot. -/
theorem push (h : Stacked before base room m s stack) (hroom : room ≤ 256)
    (hlength : stack.length < room) (b : UInt8) :
    Stacked before base room (m.write (stackAddress s) b) (s - 1) (b :: stack) where
  length_le := hlength
  pointer := by rw [h.pointer, pointer_sub_one, List.length_cons]
  read_slot := by
    intro i b' hi
    rw [List.reverse_cons, List.getElem?_append, List.length_reverse] at hi
    rw [h.stackAddress_eq, Memory.read_write]
    split at hi
    · next hlt =>
      rw [if_neg (slot_ne hlt (by omega))]
      exact h.read_slot i b' hi
    · next hge =>
      obtain ⟨hindex, hb⟩ := List.getElem?_eq_some_iff.mp hi
      rw [List.length_singleton] at hindex
      obtain rfl : i = stack.length := by omega
      rw [if_pos rfl, ← hb]
      simp
  frame := by
    intro address haddress
    rw [h.stackAddress_eq, Memory.read_write, if_neg (haddress _ hlength)]
    exact h.frame address haddress

/-- The byte above the pointer is the newest one. -/
theorem read_top (h : Stacked before base room m s (b :: stack)) :
    m.read (stackAddress (s + 1)) = b := by
  rw [h.pointer, List.length_cons, pointer_add_one]
  apply h.read_slot stack.length b
  rw [List.reverse_cons, List.getElem?_append_right (by simp), List.length_reverse, Nat.sub_self]
  rfl

/-- When the newest byte is pulled, the others stay where they are. -/
theorem pop (h : Stacked before base room m s (b :: stack)) :
    Stacked before base room m (s + 1) stack where
  length_le := Nat.le_of_succ_le h.length_le
  pointer := by rw [h.pointer, List.length_cons, pointer_add_one]
  read_slot := by
    intro i b' hi
    apply h.read_slot i b'
    have hlt : i < stack.reverse.length := (List.getElem?_eq_some_iff.mp hi).1
    rw [List.reverse_cons, List.getElem?_append_left hlt, hi]
  frame := h.frame

end Stacked

namespace Cpu

/-- A processor has certain bytes on its stack, and has used no more than `room` slots for them. -/
abbrev HasStacked (before : Memory) (base : UInt8) (room : Nat) (c : Cpu) (stack : List UInt8) :
    Prop :=
  Stacked before base room c.memory c.s stack

namespace HasStacked

variable {before : Memory} {base low high : UInt8} {room : Nat} {c : Cpu} {stack : List UInt8}

/-- A word is pushed with its low byte on top. -/
theorem pushWord (h : HasStacked before base room c stack) (hroom : room ≤ 256)
    (hlength : stack.length + 1 < room) (w : UInt16) :
    HasStacked before base room (c.pushWord w) (w.toUInt8 :: (w >>> 8).toUInt8 :: stack) := by
  have hhigh := h.push hroom (Nat.lt_of_succ_lt hlength) (w >>> 8).toUInt8
  exact hhigh.push hroom hlength w.toUInt8

/-- A word is put together from the two newest bytes. -/
theorem popWord (h : HasStacked before base room c (low :: high :: stack)) :
    c.popWord.1 = wordOf high low ∧ HasStacked before base room c.popWord.2 stack := by
  refine ⟨?_, h.pop.pop⟩
  rw [← h.read_top, ← h.pop.read_top]
  rfl

end HasStacked

end Cpu

end Core65C02
