import Core65C02.Proofs.Arithmetic.Sum
import Core65C02.Proofs.Standard
import Mathlib.Tactic.LinearCombination

/-!
# Chains of additions and subtractions

A program adds numbers of several bytes by adding their bytes in turn, the least significant first,
and leaves the carry of each addition in its flag for the next. Between two additions it loads and
stores as it likes. So a chain is a sequence of steps of which each finds the Carry and the decimal
flag that the one before left, with an accumulator and an operand of its own. What one step does
is a sum or a difference of two bytes; the main statements say what a chain of them makes of
numbers.
-/

namespace Core65C02

open Numeral

namespace Cpu

/-- The byte that the operand of the instruction at PC stands for, if it has one. -/
def operandByte? (c : Cpu) (d : Descriptor) : Option UInt8 :=
  (c.locate (c.pc + 1) d.mode).map fun r => c.operandValue r.operand

/-- A processor of the standard dispatch is about to execute an instruction `m`, in whatever mode,
whose operand is the byte `b`. -/
structure Applies (c : Cpu) (m : Mnemonic) (b : UInt8) : Prop where
  /-- Every mnemonic has its own operation. -/
  dispatch : c.dispatch = .standard
  /-- The instruction is at PC, and the program has not ended. -/
  executing : ∃ d, c.executing? = some d ∧ d.mnemonic = m ∧ c.operandByte? d = some b

/-- An instruction that takes a byte takes the byte of its operand. -/
theorem Applies.step_eq {c : Cpu} {m : Mnemonic} {b : UInt8} (happlies : c.Applies m b)
    (haccess : m.operation.access = .value) :
    ∃ d o, d.mnemonic = m ∧ c.operandValue o.operand = b ∧
      c.step.cpu = c.executed d m.operation o ∧ c.step.result = .ok m.operation.result := by
  obtain ⟨hdispatch, d, hexecuting, rfl, hbyte⟩ := happlies
  obtain ⟨hhalted, hd⟩ := executing?_eq_some_iff.mp hexecuting
  obtain ⟨o, ho, _, hstep⟩ := step_standard hdispatch hhalted hd
  obtain ⟨r, hr, hoperand, _⟩ := locate_of_operands ho (by rw [haccess]; nofun)
  rw [operandByte?, hr, Option.map_some, Option.some.injEq] at hbyte
  refine ⟨d, o, rfl, by rw [hoperand, hbyte], ?_, ?_⟩ <;> rw [hstep]

/-- A processor with a literal operand before it. -/
def poised (opcode a b : UInt8) (flags : StatusFlags) : Cpu where
  a := a
  status := flags
  memory := (Memory.zero.write 0 opcode).write 1 b

/-- A processor with a literal operand before it is about to apply the mnemonic of the row to that
operand. -/
theorem applies_poised {opcode : UInt8} {d : Descriptor}
    (hd : (standardRows.reverse.find? fun d => d.opcode == opcode) = some d)
    (hmode : d.mode = .immediate) (a b : UInt8) (flags : StatusFlags) :
    (poised opcode a b flags).Applies d.mnemonic b := by
  have hopcode : (poised opcode a b flags).opcode = opcode := by
    simp [Cpu.opcode, poised, Memory.read_write]
  have hbyte : (poised opcode a b flags).operandByte? d = some b := by
    simp [operandByte?, hmode, locate, poised, operandValue, Memory.read_write]
  refine ⟨rfl, d, ?_, rfl, hbyte⟩
  rw [executing?_of_not_halted rfl, descriptor?_eq_find?, hopcode, hd]

/-- There are processors about to add, to subtract or to compare, with any accumulator, operand and
flags. -/
theorem exists_applies {m : Mnemonic} (hm : m ∈ [.adc, .sbc, .cmp]) (a b : UInt8)
    (flags : StatusFlags) : ∃ c : Cpu, c.Applies m b ∧ c.a = a ∧ c.status = flags := by
  have hrows : ∀ m ∈ [Mnemonic.adc, .sbc, .cmp], ∃ opcode d,
      (standardRows.reverse.find? fun d => d.opcode == opcode) = some d ∧
        d.mode = .immediate ∧ d.mnemonic = m := by
    simp only [List.forall_mem_cons]
    exact ⟨⟨0x69, .single 0x69 .adc .immediate 2, by decide +kernel⟩,
      ⟨0xE9, .single 0xE9 .sbc .immediate 2, by decide +kernel⟩,
      ⟨0xC9, .single 0xC9 .cmp .immediate 2, by decide +kernel⟩, by simp⟩
  obtain ⟨opcode, d, hd, hmode, rfl⟩ := hrows m hm
  exact ⟨poised opcode a b flags, applies_poised hd hmode a b flags, rfl, rfl⟩

end Cpu

/-- The flags after an addition or a subtraction. -/
def Sum.settle (s : Sum) (flags : StatusFlags) : StatusFlags :=
  { flags with
    carry := s.carry, overflow := s.overflow, zero := s.value == 0, negative := isNegative s.value }

namespace Sum

/-- Zero is set by a sum if its value is zero. -/
theorem zero_settle (s : Sum) (flags : StatusFlags) :
    (s.settle flags).zero = decide (s.value = 0) :=
  beq_eq_decide s.value 0

/-- Negative is set by a sum if bit 7 of its value is set. -/
theorem negative_settle (s : Sum) (flags : StatusFlags) :
    (s.settle flags).negative = decide (128 ≤ s.value.toNat) :=
  isNegative_eq s.value

end Sum

/-- With the decimal flag as given, the instruction `m` puts the value of a sum into the accumulator
and settles the flags by it. -/
def Computes (m : Mnemonic) (decimal : Bool) (sum : UInt8 → UInt8 → Bool → Sum) : Prop :=
  ∀ {c : Cpu} {b : UInt8}, c.Applies m b → c.status.decimalMode = decimal →
    c.step.result = .ok .proceed ∧ c.step.cpu.a = (sum c.a b c.status.carry).value ∧
      c.step.cpu.status = (sum c.a b c.status.carry).settle c.status

namespace Computes

variable {m : Mnemonic} {decimal : Bool} {sum : UInt8 → UInt8 → Bool → Sum} {c : Cpu} {b : UInt8}

/-- An instruction that computes leaves the decimal flag alone. -/
theorem decimalMode_eq (hcomputes : Computes m decimal sum) (happlies : c.Applies m b)
    (hmode : c.status.decimalMode = decimal) : c.step.cpu.status.decimalMode = decimal := by
  obtain ⟨_, _, hstatus⟩ := hcomputes happlies hmode
  rw [hstatus]
  exact hmode

/-- An instruction that computes leaves the Carry of its sum. -/
theorem carry_eq (hcomputes : Computes m decimal sum) (happlies : c.Applies m b)
    (hmode : c.status.decimalMode = decimal) :
    c.step.cpu.status.carry = (sum c.a b c.status.carry).carry := by
  obtain ⟨_, _, hstatus⟩ := hcomputes happlies hmode
  rw [hstatus]
  rfl

end Computes

/-- `ADC` computes the sum in the mode that the decimal flag says. -/
theorem computes_add (decimal : Bool) :
    Computes .adc decimal (if decimal then addDecimal else addBinary) := by
  intro c b happlies hdecimal
  obtain ⟨d, o, _, hb, hcpu, hresult⟩ := happlies.step_eq rfl
  rw [hcpu, Cpu.executed_eq, ← hb, ← hdecimal]
  exact ⟨hresult, rfl, rfl⟩

/-- `SBC` computes the difference in the mode that the decimal flag says. -/
theorem computes_subtract (decimal : Bool) :
    Computes .sbc decimal (if decimal then subtractDecimal else subtractBinary) := by
  intro c b happlies hdecimal
  obtain ⟨d, o, _, hb, hcpu, hresult⟩ := happlies.step_eq rfl
  rw [hcpu, Cpu.executed_eq, ← hb, ← hdecimal]
  exact ⟨hresult, rfl, rfl⟩

/-- A step succeeded, derived Zero and Negative from its result, and left the decimal flag as it was
given. -/
structure StepOutcome.Settled (decimal : Bool) (out : StepOutcome) : Prop where
  /-- The next instruction can be executed. -/
  result : out.result = .ok .proceed
  /-- Zero tells that the result is zero. -/
  zero : out.cpu.status.zero = decide (out.cpu.a = 0)
  /-- Negative is bit 7 of the result. -/
  negative : out.cpu.status.negative = decide (128 ≤ out.cpu.a.toNat)
  /-- The decimal flag is as given. -/
  decimalMode : out.cpu.status.decimalMode = decimal

/-- The byte in the accumulator after each of some steps. -/
def results (outs : List StepOutcome) : List UInt8 := outs.map (·.cpu.a)

/-- A chain of instructions `m` that starts with some flags. Each works on the accumulator and the
operand that it finds, the bytes of the two lists in turn, and finds Carry and the decimal flag as
the one before left them; the outcomes are those of the steps, and the flags at the end those of the
last. -/
inductive Chain (m : Mnemonic) :
    StatusFlags → List UInt8 → List UInt8 → List StepOutcome → StatusFlags → Prop
  /-- Nothing is left to do. -/
  | nil (flags : StatusFlags) : Chain m flags [] [] [] flags
  /-- The next instruction is executed. -/
  | cons {c : Cpu} {b : UInt8} {flags last : StatusFlags} {as bs : List UInt8}
    {outs : List StepOutcome} (happlies : c.Applies m b) (hcarry : c.status.carry = flags.carry)
    (hdecimal : c.status.decimalMode = flags.decimalMode)
    (hrest : Chain m c.step.cpu.status as bs outs last) :
    Chain m flags (c.a :: as) (b :: bs) (c.step :: outs) last

namespace Chain

variable {m : Mnemonic} {decimal : Bool} {sum : UInt8 → UInt8 → Bool → Sum}
  {flags last : StatusFlags} {as bs : List UInt8} {outs : List StepOutcome}

/-- A chain has one operand and one result for each accumulator. -/
theorem length_eq (hchain : Chain m flags as bs outs last) :
    bs.length = as.length ∧ outs.length = as.length := by
  induction hchain with
  | nil => exact ⟨rfl, rfl⟩
  | cons _ _ _ _ ih => exact ⟨congrArg Nat.succ ih.1, congrArg Nat.succ ih.2⟩

/-- A chain has one byte of the result for each byte that it starts from. -/
theorem length_results (hchain : Chain m flags as bs outs last) :
    (results outs).length = as.length := by
  rw [results, List.length_map, hchain.length_eq.2]

/-- Bytes of any two numbers of one length can be added or subtracted in a chain. -/
theorem exists_chain (hm : m ∈ [.adc, .sbc]) (hlength : as.length = bs.length)
    (flags : StatusFlags) : ∃ outs last, Chain m flags as bs outs last := by
  induction as generalizing bs flags with
  | nil =>
    obtain rfl := List.length_eq_zero_iff.mp hlength.symm
    exact ⟨[], flags, .nil flags⟩
  | cons a as ih =>
    cases bs with
    | nil => cases hlength
    | cons b bs =>
      obtain ⟨c, happlies, rfl, rfl⟩ := Cpu.exists_applies
        (List.mem_append_left [.cmp] hm) a b flags
      obtain ⟨outs, last, hrest⟩ := ih (Nat.succ.inj hlength) c.step.cpu.status
      exact ⟨c.step :: outs, last, .cons happlies rfl rfl hrest⟩

/-- Every step of a chain is settled. -/
theorem settled (hcomputes : Computes m decimal sum) (hflags : flags.decimalMode = decimal)
    (hchain : Chain m flags as bs outs last) : ∀ out ∈ outs, out.Settled decimal := by
  induction hchain with
  | nil => simp
  | cons happlies hcarry hdecimal hrest ih =>
    have hmode := hdecimal.trans hflags
    have hkept := hcomputes.decimalMode_eq happlies hmode
    obtain ⟨hresult, ha, hstatus⟩ := hcomputes happlies hmode
    refine List.forall_mem_cons.mpr ⟨⟨hresult, ?_, ?_, hkept⟩, ih hkept⟩
    · rw [hstatus, ha, Sum.zero_settle]
    · rw [hstatus, ha, Sum.negative_settle]

/-- If one step adds digits exactly, a chain adds numbers exactly. The digits of the operands need
not be read as those of the accumulator: for a difference they are the complementary ones. -/
theorem number_eq (hcomputes : Computes m decimal sum) (hflags : flags.decimalMode = decimal)
    {base : Nat} {digit operandDigit : UInt8 → Nat} {P : UInt8 → Prop}
    (hsum : ∀ a b carry, P a → P b → P (sum a b carry).value ∧
      digit (sum a b carry).value + base * (sum a b carry).carry.toNat =
        digit a + operandDigit b + carry.toNat)
    (has : ∀ a ∈ as, P a) (hbs : ∀ b ∈ bs, P b) (hchain : Chain m flags as bs outs last) :
    (∀ r ∈ results outs, P r) ∧
      number base digit (results outs) + base ^ as.length * last.carry.toNat =
        number base digit as + number base operandDigit bs + flags.carry.toNat := by
  induction hchain with
  | nil flags => simp [results, number]
  | @cons c b flags last as bs outs happlies hcarry hdecimal hrest ih =>
    have hmode := hdecimal.trans hflags
    obtain ⟨_, ha, _⟩ := hcomputes happlies hmode
    rw [List.forall_mem_cons] at has hbs
    obtain ⟨hP, hdigit⟩ := hsum c.a b c.status.carry has.1 hbs.1
    obtain ⟨hPs, hnumber⟩ := ih (hcomputes.decimalMode_eq happlies hmode) has.2 hbs.2
    rw [results, List.map_cons, ← results, List.forall_mem_cons, ha, number_cons, number_cons,
      number_cons, List.length_cons, Nat.pow_succ, ← hcarry]
    refine ⟨⟨hP, hPs⟩, ?_⟩
    rw [hcomputes.carry_eq happlies hmode] at hnumber
    calc _ = digit (sum c.a b c.status.carry).value +
          base * (number base digit (results outs) + base ^ as.length * last.carry.toNat) := by ring
      _ = digit (sum c.a b c.status.carry).value + base * (sum c.a b c.status.carry).carry.toNat +
          base * (number base digit as + number base operandDigit bs) := by rw [hnumber]; ring
      _ = _ := by rw [hdigit]; ring

/-- If one step adds the complementary digit of its operand, a chain subtracts numbers, and what the
carry tells is that nothing had to be borrowed. -/
theorem difference_eq (hcomputes : Computes m decimal sum) (hflags : flags.decimalMode = decimal)
    {base : Nat} {digit : UInt8 → Nat} {P : UInt8 → Prop} (hdigit : ∀ b, P b → digit b < base)
    (hsum : ∀ a b carry, P a → P b → P (sum a b carry).value ∧
      digit (sum a b carry).value + base * (sum a b carry).carry.toNat =
        digit a + (base - 1 - digit b) + carry.toNat)
    (has : ∀ a ∈ as, P a) (hbs : ∀ b ∈ bs, P b) (hchain : Chain m flags as bs outs last) :
    (∀ r ∈ results outs, P r) ∧
      (number base digit (results outs) : Int) - base ^ as.length * (1 - last.carry.toNat) =
        number base digit as - number base digit bs - (1 - flags.carry.toNat) := by
  obtain ⟨hresults, hnumber⟩ := hchain.number_eq hcomputes hflags hsum has hbs
  have hcomplement := number_complement fun b hb => hdigit b (hbs b hb)
  rw [hchain.length_eq.1] at hcomplement
  refine ⟨hresults, ?_⟩
  zify at hnumber hcomplement
  linear_combination hnumber + hcomplement

/-- What a chain of binary sums tells of the exact sum in two's complement: whether it fits, by
Overflow, and its sign, by Negative and Overflow. Negative alone is the sign of the result. -/
theorem signs (hcomputes : Computes m false sum) (hflags : flags.decimalMode = false)
    {addend : UInt8 → UInt8} (hsum : ∀ a b carry, sum a b carry = addBinary a (addend b) carry)
    (hnonempty : as ≠ []) (hchain : Chain m flags as bs outs last) :
    (last.negative = true ↔ signed (results outs) < 0) ∧
      (last.overflow = true ↔
        ¬ Fits as.length (signed as + signed (bs.map addend) + flags.carry.toNat)) ∧
      ((last.negative ^^ last.overflow) = true ↔
        signed as + signed (bs.map addend) + flags.carry.toNat < 0) := by
  induction hchain with
  | nil => exact absurd rfl hnonempty
  | @cons c b flags last as bs outs happlies hcarry hdecimal hrest ih =>
    have hmode := hdecimal.trans hflags
    have hkept := hcomputes.decimalMode_eq happlies hmode
    have hout := hcomputes.carry_eq happlies hmode
    obtain ⟨_, ha, hstatus⟩ := hcomputes happlies hmode
    rw [hsum, hcarry] at ha hstatus hout
    rw [results, List.map_cons, ← results, List.map_cons, ha]
    by_cases hlast : as = []
    · -- the most significant bytes have the signs
      subst hlast
      cases hrest
      rw [hstatus]
      exact ⟨isNegative_iff _, overflow_addBinary_iff .., isNegative_xor_overflow_iff ..⟩
    · have hbytes := addBinary_eq c.a (addend b) flags.carry
      have hbs := hrest.length_eq.1
      have has := mt List.length_eq_zero_iff.mp hlast
      have hbs' : bs.map addend ≠ [] := by
        rw [← List.length_pos_iff, List.length_map]
        omega
      have houts' : results outs ≠ [] := by
        rw [← List.length_pos_iff, hrest.length_results]
        omega
      obtain ⟨hnegative, hoverflow, hsign⟩ := ih hkept hlast
      rw [hout] at hoverflow hsign
      have hexact : signed (c.a :: as) + signed (addend b :: bs.map addend) + flags.carry.toNat =
          (addBinary c.a (addend b) flags.carry).value.toNat + 256 * (signed as +
            signed (bs.map addend) + (addBinary c.a (addend b) flags.carry).carry.toNat) := by
        rw [signed_cons _ hlast, signed_cons _ hbs']
        omega
      have hbyte := (addBinary c.a (addend b) flags.carry).value.toNat_lt
      rw [hexact, signed_cons _ houts', List.length_cons, fits_succ_iff has, hnegative, hoverflow,
        hsign]
      exact ⟨by omega, Iff.rfl, by omega⟩

end Chain

end Core65C02
