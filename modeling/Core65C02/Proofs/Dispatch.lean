import Core65C02.Proofs.Standard

/-!
# The standard dispatch is complete

The operations are registered one mnemonic at a time, and the members of a bit family by their
distance from the first one in the order of all mnemonics. It is proved that every mnemonic gets
its own operation in this way, and then that a step of this dispatch can fail in one way only: at a
byte that has no row.
-/

namespace Core65C02

namespace Dispatch

/-- The mnemonics that are registered by name: all but the members of the bit families. -/
def named : List Mnemonic :=
  [.adc, .and, .asl, .bcc, .bcs, .beq, .bit, .bmi, .bne, .bpl, .bra, .brk, .bvc, .bvs,
   .clc, .cld, .cli, .clv, .cmp, .cpx, .cpy, .dec, .dex, .dey, .eor, .inc, .inx, .iny, .jmp, .jsr,
   .lda, .ldx, .ldy, .lsr, .nop, .ora, .pha, .php, .phx, .phy, .pla, .plp, .plx, .ply,
   .rol, .ror, .rti, .rts, .sbc, .sec, .sed, .sei, .sta, .stp, .stx, .sty, .stz,
   .tax, .tay, .trb, .tsb, .tsx, .txa, .txs, .tya, .wai, .dbp, .drs, .dmp]

/-- The first members of the bit families. -/
def firstMembers : List Mnemonic := [.bbr 0, .bbs 0, .rmb 0, .smb 0]

/-- Gives the mnemonic that stands `n` places behind the first member of a family in the order of
all mnemonics the operation of the family. Behind the last mnemonic nothing is registered. -/
def assignBehind (table : Dispatch) (first : Mnemonic) (n : Nat) : Dispatch :=
  match Mnemonic.all[first.index + n]? with
  | some m => table.assign m first
  | none => table

/-- The dispatch that comes of registering the named mnemonics, each with its own operation, and
then the members of the bit families by their position. -/
def registered : Dispatch :=
  (List.range 8).foldl (fun table n => firstMembers.foldl (·.assignBehind · n) table)
    (named.foldl (fun table m => table.assign m m) empty)

/-- Registration misses no mnemonic and misplaces none. -/
theorem registered_eq_standard : registered = standard := by
  have hall : Mnemonic.all.map registered = Mnemonic.all.map standard := by decide +kernel
  funext m
  exact List.map_inj_left.mp hall m (Mnemonic.mem_all m)

end Dispatch

namespace Cpu

/-- With the standard dispatch a step fails where the byte at PC has no row, and nowhere else. -/
theorem standardStep_result_eq_error_iff {c : Cpu} (hdispatch : c.dispatch = .standard)
    {fault : Fault} :
    c.step.result = .error fault ↔
      c.halted = false ∧ c.descriptor? = none ∧ fault = .unsupportedInstruction c.opcode c.pc := by
  have hstep := standardStepsTo_step hdispatch
  generalize c.step = out at hstep ⊢
  cases hstep with
  | halted hhalted => simp [hhalted]
  | undefined hhalted hd => simp [hhalted, hd, eq_comm]
  | executed hhalted d hd o ho hnext => simp [hd]

/-- The dispatch that is registered is complete. A step fails exactly if the program has not ended
and the byte at PC has no row, and the fault then names that byte and PC; no step ever finds an
addressing mode that its operation cannot work in. So whatever number of steps is made, a fault can
come from nothing but the fetch of an undefined byte. -/
theorem step_fails_iff_undefined (c : Cpu) (hdispatch : c.dispatch = .registered) :
    (∀ fault, c.step.result = .error fault ↔
      c.halted = false ∧ (∀ d ∈ standardRows, d.opcode ≠ c.opcode) ∧
        fault = .unsupportedInstruction c.opcode c.pc) ∧
    (∀ mode pc, c.step.result ≠ .error (.unsupportedAddressingMode mode pc)) ∧
    ∀ n fault, (c.after n).step.result = .error fault →
      (c.after n).halted = false ∧ (∀ d ∈ standardRows, d.opcode ≠ (c.after n).opcode) ∧
        fault = .unsupportedInstruction (c.after n).opcode (c.after n).pc := by
  rw [Dispatch.registered_eq_standard] at hdispatch
  simp only [← descriptor?_eq_none_iff]
  refine ⟨fun fault => standardStep_result_eq_error_iff hdispatch, ?_, ?_⟩
  · intro mode pc hfault
    obtain ⟨_, _, hne⟩ := (standardStep_result_eq_error_iff hdispatch).mp hfault
    cases hne
  · intro n fault hfault
    have hafter : (c.after n).dispatch = .standard := (c.after_dispatch n).trans hdispatch
    exact (standardStep_result_eq_error_iff hafter).mp hfault

/-- A processor about to fetch a byte that has no row. -/
def astray : Cpu where
  pc := 0xFFFF
  memory := Memory.zero.write 0xFFFF 0xFC

/-- The step fails, and the fault names the byte and where it is. -/
theorem step_fails_iff_undefined_astray :
    astray.dispatch = .registered ∧
      astray.step.result = .error (.unsupportedInstruction 0xFC 0xFFFF) := by
  have hdispatch : astray.dispatch = .registered := Dispatch.registered_eq_standard.symm
  have hopcode : astray.opcode = 0xFC := by simp [opcode, astray, Memory.read_write]
  have hundefined : ∀ d ∈ standardRows, d.opcode ≠ astray.opcode := by
    rw [hopcode]
    decide +kernel
  refine ⟨hdispatch, ((step_fails_iff_undefined astray hdispatch).1 _).mpr ⟨rfl, hundefined, ?_⟩⟩
  rw [hopcode]
  rfl

end Cpu

end Core65C02
