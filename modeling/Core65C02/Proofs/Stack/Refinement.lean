import Core65C02.Proofs.Effect
import Core65C02.Proofs.Stack.Basic
import Mathlib.Algebra.BigOperators.Group.List.Basic
import Mathlib.Algebra.Ring.Int.Defs

/-!
# The stack of the processor as an abstract stack

Bytes and words can be pushed and pulled in any order, a word being two bytes with the low one on
top. An abstract stack is a list of the bytes that have been pushed and not yet pulled. The main
statement is that as long as there are between none and 256 of them, the stack of the processor
gives what the abstract stack gives, its pointer tells their number, and nothing outside page one
and the pointer changes.
-/

namespace Core65C02

/-- What can be done with a stack. -/
inductive StackCall
  /-- A byte is pushed. -/
  | push (b : UInt8)
  /-- A byte is pulled. -/
  | pop
  /-- A word is pushed. -/
  | pushWord (w : UInt16)
  /-- A word is pulled. -/
  | popWord
deriving DecidableEq

/-- What a call gives. -/
inductive StackAnswer
  /-- Nothing, for something was pushed. -/
  | nothing
  /-- The byte that was pulled. -/
  | byte (b : UInt8)
  /-- The word that was pulled. -/
  | word (w : UInt16)
deriving DecidableEq

namespace StackCall

/-- How many bytes more are on a stack after a call. -/
def growth : StackCall → Int
  | push _ => 1
  | pop => -1
  | pushWord _ => 2
  | popWord => -2

/-- How many bytes are on a stack after calls that began with an empty one. -/
def outstanding (calls : List StackCall) : Int := (calls.map growth).sum

/-- What a call gives and leaves of the bytes on an abstract stack, the newest first, if there are as
many as it takes. -/
def onStack? : StackCall → List UInt8 → Option (StackAnswer × List UInt8)
  | push b, stack => some (.nothing, b :: stack)
  | pop, b :: stack => some (.byte b, stack)
  | pushWord w, stack => some (.nothing, w.toUInt8 :: (w >>> 8).toUInt8 :: stack)
  | popWord, low :: high :: stack => some (.word (wordOf high low), stack)
  | _, _ => none

/-- What calls made one after another give and leave. -/
def onStackAll? : List StackCall → List UInt8 → Option (List StackAnswer × List UInt8)
  | [], stack => some ([], stack)
  | call :: calls, stack => do
    let (answer, stack) ← call.onStack? stack
    let (answers, stack) ← onStackAll? calls stack
    return (answer :: answers, stack)

/-- Without calls there is nothing on the stack. -/
@[simp] theorem outstanding_nil : outstanding [] = 0 := rfl

/-- The first call adds its bytes to those of the others. -/
@[simp] theorem outstanding_cons (call : StackCall) (calls : List StackCall) :
    outstanding (call :: calls) = call.growth + outstanding calls := by
  rw [outstanding, List.map_cons, List.sum_cons]
  rfl

/-- The first call is one of the first ones. -/
theorem outstanding_take_succ (call : StackCall) (calls : List StackCall) (n : Nat) :
    outstanding ((call :: calls).take (n + 1)) = call.growth + outstanding (calls.take n) := by
  rw [List.take_succ_cons, outstanding_cons]

end StackCall

namespace Cpu

open StackCall

/-- What a call on the stack of the processor gives. -/
def stackAnswer (c : Cpu) : StackCall → StackAnswer
  | .push _ | .pushWord _ => .nothing
  | .pop => .byte c.pop.1
  | .popWord => .word c.popWord.1

/-- The processor after a call on its stack. -/
def afterCall (c : Cpu) : StackCall → Cpu
  | .push b => c.push b
  | .pop => c.pop.2
  | .pushWord w => c.pushWord w
  | .popWord => c.popWord.2

/-- What calls made one after another give. -/
def stackAnswers : Cpu → List StackCall → List StackAnswer
  | _, [] => []
  | c, call :: calls => c.stackAnswer call :: (c.afterCall call).stackAnswers calls

/-- The processor after calls made one after another. -/
def afterCalls (c : Cpu) (calls : List StackCall) : Cpu := calls.foldl afterCall c

/-- Calls on the stack write to memory and to the stack pointer only. -/
theorem afterCalls_eq (c : Cpu) (calls : List StackCall) :
    c.afterCalls calls =
      { c with s := (c.afterCalls calls).s, memory := (c.afterCalls calls).memory } := by
  induction calls generalizing c with
  | nil => rfl
  | cons call calls ih =>
    refine (ih (c.afterCall call)).trans ?_
    cases call <;> rfl

section Refinement

variable {before : Memory} {base : UInt8} {room : Nat} {c : Cpu} {stack : List UInt8}

/-- A call for which there are enough bytes, or enough room, does the same to the stack of the
processor as to the abstract stack. -/
theorem HasStacked.afterCall (h : HasStacked before base room c stack) (hroom : room ≤ 256)
    {call : StackCall} (hlow : 0 ≤ stack.length + call.growth)
    (hhigh : stack.length + call.growth ≤ room) :
    ∃ stack', call.onStack? stack = some (c.stackAnswer call, stack') ∧
      HasStacked before base room (c.afterCall call) stack' ∧
      (stack'.length : Int) = stack.length + call.growth := by
  cases call with
  | push b =>
    have hlength : stack.length < room := by
      simp only [growth] at hhigh
      omega
    exact ⟨b :: stack, rfl, h.push hroom hlength b, rfl⟩
  | pushWord w =>
    have hlength : stack.length + 1 < room := by
      simp only [growth] at hhigh
      omega
    exact ⟨_, rfl, h.pushWord hroom hlength w, rfl⟩
  | pop =>
    cases stack with
    | nil => simp [growth] at hlow
    | cons b stack =>
      have hanswer : c.stackAnswer .pop = .byte b := congrArg StackAnswer.byte h.read_top
      refine ⟨stack, hanswer ▸ rfl, h.pop, ?_⟩
      simp only [growth, List.length_cons]
      omega
  | popWord =>
    match stack with
    | [] | [_] => simp [growth] at hlow
    | low :: high :: stack =>
      obtain ⟨hword, hrest⟩ := h.popWord
      have hanswer : c.stackAnswer .popWord = .word (wordOf high low) :=
        congrArg StackAnswer.word hword
      refine ⟨stack, hanswer ▸ rfl, hrest, ?_⟩
      simp only [growth, List.length_cons]
      omega

/-- Calls during which there are always enough bytes and enough room do the same to both stacks. -/
theorem HasStacked.afterCalls (h : HasStacked before base room c stack) (hroom : room ≤ 256)
    {calls : List StackCall} (hdepth : ∀ n ≤ calls.length,
      0 ≤ stack.length + outstanding (calls.take n) ∧
        stack.length + outstanding (calls.take n) ≤ room) :
    ∃ stack', onStackAll? calls stack = some (c.stackAnswers calls, stack') ∧
      HasStacked before base room (c.afterCalls calls) stack' ∧
      (stack'.length : Int) = stack.length + outstanding calls := by
  induction calls generalizing c stack with
  | nil => exact ⟨stack, rfl, h, (add_zero _).symm⟩
  | cons call calls ih =>
    have hfirst := hdepth 1 (Nat.succ_le_succ (Nat.zero_le _))
    rw [outstanding_take_succ, List.take_zero, outstanding_nil, add_zero] at hfirst
    obtain ⟨stack', hcalls, hstacked, hlength⟩ := h.afterCall hroom hfirst.1 hfirst.2
    have hothers : ∀ n ≤ calls.length,
        0 ≤ stack'.length + outstanding (calls.take n) ∧
          stack'.length + outstanding (calls.take n) ≤ room := by
      intro n hn
      have hsucc := hdepth (n + 1) (Nat.succ_le_succ hn)
      rw [outstanding_take_succ] at hsucc
      omega
    obtain ⟨last, hothersCalls, hlast, hlastLength⟩ := ih hstacked hothers
    refine ⟨last, ?_, hlast, ?_⟩
    · simp [onStackAll?, hcalls, hothersCalls, Cpu.stackAnswers]
    · rw [outstanding_cons]
      omega

/-- The same of a processor with nothing on its stack, which is any processor. -/
theorem afterCalls_fromEmpty (hroom : room ≤ 256) (c : Cpu) (calls : List StackCall)
    (hdepth : ∀ n ≤ calls.length,
      0 ≤ outstanding (calls.take n) ∧ outstanding (calls.take n) ≤ room) :
    ∃ stack, onStackAll? calls [] = some (c.stackAnswers calls, stack) ∧
      HasStacked c.memory c.s room (c.afterCalls calls) stack ∧
      (stack.length : Int) = outstanding calls := by
  have hempty : HasStacked c.memory c.s room c [] := .empty c.memory c.s room
  simpa using hempty.afterCalls hroom (by simpa using hdepth)

end Refinement

/-- While between none and 256 bytes are outstanding, the stack of the processor is the abstract one:
calls give the same, at every time the stack pointer is the number of the bytes below where it began,
and neither a byte outside page one nor anything else in the processor has changed. -/
theorem stackAnswers_abstract (c : Cpu) (calls : List StackCall)
    (hdepth : ∀ n ≤ calls.length,
      0 ≤ outstanding (calls.take n) ∧ outstanding (calls.take n) ≤ 256) :
    (∃ stack, onStackAll? calls [] = some (c.stackAnswers calls, stack)) ∧
      ∀ n ≤ calls.length,
        ((c.afterCalls (calls.take n)).s.toNat : Int) =
            (c.s.toNat - outstanding (calls.take n)) % 256 ∧
          (∀ address : UInt16, address.toNat < 0x0100 ∨ 0x01FF < address.toNat →
            (c.afterCalls (calls.take n)).memory.read address = c.memory.read address) ∧
          c.afterCalls (calls.take n) =
            { c with
              s := (c.afterCalls (calls.take n)).s
              memory := (c.afterCalls (calls.take n)).memory } := by
  constructor
  · obtain ⟨stack, hcalls, -, -⟩ := afterCalls_fromEmpty (Nat.le_refl 256) c calls hdepth
    exact ⟨stack, hcalls⟩
  intro n hn
  have htaken : ∀ m ≤ (calls.take n).length,
      0 ≤ outstanding ((calls.take n).take m) ∧ outstanding ((calls.take n).take m) ≤ 256 := by
    intro m hm
    rw [List.length_take] at hm
    rw [List.take_take]
    exact hdepth _ (by omega)
  obtain ⟨stack, -, hstacked, hlength⟩ :=
    afterCalls_fromEmpty (Nat.le_refl 256) c (calls.take n) htaken
  refine ⟨?_, ?_, c.afterCalls_eq _⟩
  · have hpointer : (c.s - .ofNat stack.length).toNat =
        (256 - stack.length % 256 + c.s.toNat) % 256 := by
      rw [UInt8.toNat_sub, UInt8.toNat_ofNat']
    rw [hstacked.pointer, hpointer]
    omega
  · intro address haddress
    apply hstacked.frame
    intro i _ heq
    have hslot := slot_in_page c.s i
    rw [heq] at haddress
    omega

/-- A stack that wraps around the end of its page gives back what was pushed, the newest first. -/
theorem stackAnswers_abstract_wrapping :
    (∀ n ≤ 4, 0 ≤ outstanding ([.pushWord 0x1234, .push 0x56, .pop, .popWord].take n) ∧
      outstanding ([.pushWord 0x1234, .push 0x56, .pop, .popWord].take n) ≤ 256) ∧
    ({ s := 0x01 } : Cpu).stackAnswers [.pushWord 0x1234, .push 0x56, .pop, .popWord] =
      [.nothing, .nothing, .byte 0x56, .word 0x1234] ∧
    (({ s := 0x01 } : Cpu).afterCalls [.pushWord 0x1234, .push 0x56]).s = 0xFE := by
  have hdepth : ∀ n ≤ 4,
      0 ≤ outstanding ([.pushWord 0x1234, .push 0x56, .pop, .popWord].take n) ∧
        outstanding ([.pushWord 0x1234, .push 0x56, .pop, .popWord].take n) ≤ 256 := by
    decide
  obtain ⟨⟨stack, hcalls⟩, hpointers⟩ := stackAnswers_abstract { s := 0x01 }
    [.pushWord 0x1234, .push 0x56, .pop, .popWord] hdepth
  have hcomputed : onStackAll? [.pushWord 0x1234, .push 0x56, .pop, .popWord] [] =
      some ([.nothing, .nothing, .byte 0x56, .word 0x1234], []) := by
    decide
  refine ⟨hdepth, ?_, ?_⟩
  · rw [hcomputed] at hcalls
    simp only [Option.some.injEq, Prod.mk.injEq] at hcalls
    exact hcalls.1.symm
  · have hpointer := (hpointers 2 (by decide)).1
    apply UInt8.toNat_inj.mp
    have houtstanding : outstanding ([.pushWord 0x1234, .push 0x56] : List StackCall) = 3 := rfl
    simp only [List.take, houtstanding] at hpointer
    exact Int.ofNat.inj hpointer

end Cpu

end Core65C02
