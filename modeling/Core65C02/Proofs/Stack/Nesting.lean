import Core65C02.Proofs.Control
import Core65C02.Proofs.Stack.Basic

/-!
# Nested subroutines

A call keeps its return address in two bytes on the stack, and a return continues behind the call
that it belongs to. Which call that is depends only on the order of the calls and the returns: it is
the latest one that has not been returned from. The main statement is about runs of a program that
calls and returns and does nothing else. The code may change while it runs, for the stack can lie on
top of it, and both the stack and the code can wrap. As long as the calls are not nested deeper than
there is room for on the stack, each return leads behind its call, and in the end nothing but the
room that was used differs.
-/

namespace Core65C02

namespace Cpu

/-- The mnemonic of the instruction that the next step executes, if it executes one. -/
def mnemonic? (c : Cpu) : Option Mnemonic := c.executing?.map (·.mnemonic)

/-- How many calls more are open after an instruction. -/
def deepening : Option Mnemonic → Int
  | some .jsr => 1
  | some .rts => -1
  | _ => 0

/-- How many calls more than returns there are among the first steps. -/
def nesting (c : Cpu) : Nat → Int
  | 0 => 0
  | n + 1 => c.nesting n + deepening (c.after n).mnemonic?

/-- The step `j` returns from the call that is made by the step `i`: between them the calls are
nested deeper than before the call, and after the return they are nested as before it. -/
structure Returns (c : Cpu) (i j : Nat) : Prop where
  /-- The call comes first. -/
  lt : i < j
  /-- The first step is a call. -/
  calls : (c.after i).mnemonic? = some .jsr
  /-- The last step is a return. -/
  returns : (c.after j).mnemonic? = some .rts
  /-- The return undoes the call. -/
  nesting_eq : c.nesting (j + 1) = c.nesting i
  /-- No return before has undone it. -/
  nesting_lt : ∀ k, i < k → k ≤ j → c.nesting i < c.nesting k

/-- A return belongs to one call only. -/
theorem Returns.unique {c : Cpu} {i i' j : Nat} (h : c.Returns i j) (h' : c.Returns i' j) :
    i = i' := by
  have hnesting : c.nesting i = c.nesting i' := h.nesting_eq.symm.trans h'.nesting_eq
  rcases Nat.lt_trichotomy i i' with hlt | heq | hgt
  · have hdeeper := h.nesting_lt i' hlt (Nat.le_of_lt h'.lt)
    omega
  · exact heq
  · have hdeeper := h'.nesting_lt i hgt (Nat.le_of_lt h.lt)
    omega

/-! ### What a step does -/

/-- A call takes three bytes. -/
theorem bytes_of_mem_standardRows_call : ∀ d ∈ standardRows, d.mnemonic = .jsr → d.bytes = 3 := by
  decide +kernel

/-- The mnemonic that is executed is that of the row, unless the program has ended. -/
theorem mnemonic?_of_descriptor? {c : Cpu} {d : Descriptor} (hhalted : c.halted = false)
    (hd : c.descriptor? = some d) : c.mnemonic? = some d.mnemonic := by
  rw [mnemonic?, executing?_of_not_halted hhalted, hd]
  rfl

/-- Where a mnemonic is executed, the program has not ended, and there is a row with the
mnemonic. -/
theorem exists_descriptor_of_mnemonic? {c : Cpu} {m : Mnemonic} (hm : c.mnemonic? = some m) :
    c.halted = false ∧ ∃ d, c.descriptor? = some d ∧ d.mnemonic = m := by
  obtain ⟨d, hexecuting, hmnemonic⟩ := Option.map_eq_some_iff.mp hm
  obtain ⟨hhalted, hd⟩ := executing?_eq_some_iff.mp hexecuting
  exact ⟨hhalted, d, hd, hmnemonic⟩

/-- A call pushes the address of its last byte and continues at the word behind the opcode. -/
theorem step_call {c : Cpu} (hdispatch : c.dispatch = .standard)
    (hm : c.mnemonic? = some .jsr) :
    ∃ last totalCycles, c.step.cpu =
      { c.pushWord (c.pc + 2) with
        pc := c.memory.readWord (c.pc + 1), last := last, totalCycles := totalCycles } := by
  obtain ⟨hhalted, d, hd, hmnemonic⟩ := exists_descriptor_of_mnemonic? hm
  obtain ⟨o, ho, hnext, hstep⟩ := step_standard hdispatch hhalted hd
  have hrow := (descriptor?_mem hd).1
  have hmode : d.mode = .absolute := by
    have hsteers := steersIn_of_mem_standardRows d hrow
    simpa [hmnemonic, Mnemonic.operation, Operation.steersIn] using hsteers
  rw [hmnemonic] at ho
  have hlocation : o.location = c.memory.readWord (c.pc + 1) := by
    rw [location_of_jump (by simp [hmode]) ho, hmode]
    rfl
  have hreturn : o.next - 1 = c.pc + 2 := by
    rw [hnext, bytes_of_mem_standardRows_call d hrow hmnemonic]
    rw [UInt16.sub_eq_add_neg, UInt16.add_assoc]
    rfl
  rw [hstep, hmnemonic, ← hlocation, ← hreturn]
  dsimp only
  rw [executed_eq]
  exact ⟨_, _, rfl⟩

/-- A return continues behind the word that it pulls. -/
theorem step_return {c : Cpu} (hdispatch : c.dispatch = .standard)
    (hm : c.mnemonic? = some .rts) :
    ∃ last totalCycles, c.step.cpu =
      { c.popWord.2 with pc := c.popWord.1 + 1, last := last, totalCycles := totalCycles } := by
  obtain ⟨hhalted, d, hd, hmnemonic⟩ := exists_descriptor_of_mnemonic? hm
  obtain ⟨o, -, -, hstep⟩ := step_standard hdispatch hhalted hd
  rw [hstep, hmnemonic, popWord_eq]
  dsimp only
  rw [executed_eq]
  exact ⟨_, _, rfl⟩

/-- A step that executes no instruction does nothing. -/
theorem step_of_mnemonic?_eq_none {c : Cpu} (hdispatch : c.dispatch = .standard)
    (hm : c.mnemonic? = none) : c.step.cpu = c := by
  have hexecuting : c.executing? = none := Option.map_eq_none_iff.mp hm
  generalize hout : c.step = out
  have hstep := standardStepsTo_step hdispatch
  rw [hout] at hstep
  cases hstep with
  | halted | undefined => rfl
  | executed hhalted d hd =>
    rw [executing?_of_not_halted hhalted, hd] at hexecuting
    cases hexecuting

/-! ### Open calls -/

/-- The steps whose calls have not been returned from after `n` steps, the latest first. -/
def openCalls (c : Cpu) : Nat → List Nat
  | 0 => []
  | n + 1 =>
    match (c.after n).mnemonic? with
    | some .jsr => n :: c.openCalls n
    | some .rts => (c.openCalls n).tail
    | _ => c.openCalls n

/-- As long as there are at least as many calls as returns, each of the calls that there are more is
open. -/
theorem length_openCalls (c : Cpu) {n : Nat} (hdepth : ∀ k ≤ n, 0 ≤ c.nesting k) :
    ((c.openCalls n).length : Int) = c.nesting n := by
  induction n with
  | zero => rfl
  | succ n ih =>
    have hlength := ih fun k hk => hdepth k (Nat.le_succ_of_le hk)
    have hnonneg := hdepth (n + 1) (Nat.le_refl _)
    rw [nesting] at hnonneg ⊢
    unfold openCalls
    split
    · next hcall =>
      simp only [hcall, deepening, List.length_cons]
      omega
    · next hreturn =>
      simp only [hreturn, deepening, List.length_tail] at hnonneg ⊢
      omega
    · next hcall hreturn =>
      have hsame : deepening (c.after n).mnemonic? = 0 := by
        unfold deepening
        split <;> simp_all
      omega

/-- An open call is a call. The calls below it were open when it was made, and are the ones below it
ever since. -/
theorem call_of_suffix {c : Cpu} {i n : Nat} {outer : List Nat}
    (hopen : i :: outer <:+ c.openCalls n) :
    i < n ∧ (c.after i).mnemonic? = some .jsr ∧ outer = c.openCalls i ∧
      ∀ k, i < k → k ≤ n → i :: outer <:+ c.openCalls k := by
  induction n with
  | zero => exact absurd (List.suffix_nil.mp hopen) (List.cons_ne_nil i outer)
  | succ n ih =>
    have hearlier (hbefore : i :: outer <:+ c.openCalls n) :
        i < n + 1 ∧ (c.after i).mnemonic? = some .jsr ∧ outer = c.openCalls i ∧
          ∀ k, i < k → k ≤ n + 1 → i :: outer <:+ c.openCalls k := by
      obtain ⟨hlt, hcall, houter, hsince⟩ := ih hbefore
      refine ⟨Nat.lt_succ_of_lt hlt, hcall, houter, fun k hik hk => ?_⟩
      rcases Nat.le_succ_iff.mp hk with hk | rfl
      · exact hsince k hik hk
      · exact hopen
    -- only a call brings a new pair, for a return takes the latest call away
    have hopen' := hopen
    unfold openCalls at hopen'
    split at hopen'
    · next hcall =>
      rcases List.suffix_cons_iff.mp hopen' with hnew | hbefore
      · obtain ⟨rfl, rfl⟩ := List.cons.inj hnew
        refine ⟨Nat.lt_succ_self i, hcall, rfl, fun k hik hk => ?_⟩
        obtain rfl : k = i + 1 := by omega
        exact hopen
      · exact hearlier hbefore
    · exact hearlier (hopen'.trans (List.tail_suffix _))
    · exact hearlier hopen'

/-- A return belongs to the latest open call. -/
theorem returns_of_openCalls {c : Cpu} {i j : Nat} {outer : List Nat}
    (hdepth : ∀ k ≤ j + 1, 0 ≤ c.nesting k) (hopen : c.openCalls j = i :: outer)
    (hreturn : (c.after j).mnemonic? = some .rts) : c.Returns i j := by
  have hsuffix : i :: outer <:+ c.openCalls j := ⟨[], hopen.symm⟩
  obtain ⟨hlt, hcall, houter, hsince⟩ := call_of_suffix hsuffix
  have hlength {k : Nat} (hk : k ≤ j + 1) : ((c.openCalls k).length : Int) = c.nesting k :=
    c.length_openCalls fun m hm => hdepth m (Nat.le_trans hm hk)
  have hbelow : (outer.length : Int) = c.nesting i := by
    rw [houter]
    exact hlength (by omega)
  have hafter : c.openCalls (j + 1) = outer := by
    rw [openCalls, hreturn]
    exact congrArg List.tail hopen
  refine ⟨hlt, hcall, hreturn, ?_, fun k hik hkj => ?_⟩
  · rw [← hbelow, ← hafter]
    exact (hlength (Nat.le_refl _)).symm
  · have hle := (hsince k hik hkj).length_le
    rw [List.length_cons] at hle
    rw [← hbelow, ← hlength (by omega)]
    omega

/-! ### The room on the stack -/

/-- The bytes on the stack after `n` steps: the return addresses of the open calls. -/
def savedBytes (c : Cpu) (n : Nat) : List UInt8 :=
  (c.openCalls n).flatMap fun i =>
    [((c.after i).pc + 2).toUInt8, (((c.after i).pc + 2) >>> 8).toUInt8]

/-- An open call has two bytes on the stack. -/
theorem length_savedBytes (c : Cpu) (n : Nat) :
    (c.savedBytes n).length = 2 * (c.openCalls n).length := by
  unfold savedBytes
  induction c.openCalls n with
  | nil => rfl
  | cons i outer ih =>
    rw [List.flatMap_cons, List.length_append, ih, List.length_cons]
    simp only [List.length_cons, List.length_nil]
    omega

/-- The registers that a call and a return leave alone. -/
def registers (c : Cpu) : UInt8 × UInt8 × UInt8 × StatusFlags := (c.a, c.x, c.y, c.status)

/-- The first `n` steps call and return and do nothing else, and the calls are nested at most so
deep. -/
structure CallsOnly (c : Cpu) (depth n : Nat) : Prop where
  /-- The mnemonics have their own operations. -/
  dispatch : c.dispatch = .standard
  /-- What is executed is a call or a return. -/
  program : ∀ k < n, (c.after k).mnemonic? ∈ [none, some .jsr, some .rts]
  /-- There is no return without a call, and there are not too many calls. -/
  nesting : ∀ k ≤ n, 0 ≤ c.nesting k ∧ c.nesting k ≤ depth

namespace CallsOnly

variable {c : Cpu} {depth n : Nat}

/-- If some steps only call and return, the first of them do so too. -/
theorem shorter (h : c.CallsOnly depth n) {m : Nat} (hm : m ≤ n) : c.CallsOnly depth m where
  dispatch := h.dispatch
  program := fun k hk => h.program k (Nat.lt_of_lt_of_le hk hm)
  nesting := fun k hk => h.nesting k (Nat.le_trans hk hm)

/-- A step that only calls or returns executes `JSR`, `RTS` or nothing. -/
theorem executes (h : c.CallsOnly depth (n + 1)) :
    (c.after n).mnemonic? = none ∨ (c.after n).mnemonic? = some .jsr ∨
      (c.after n).mnemonic? = some .rts := by
  simpa using h.program n (Nat.lt_succ_self n)

/-- Calls and returns leave the dispatch as it is. -/
theorem dispatch_after (h : c.CallsOnly depth n) (k : Nat) : (c.after k).dispatch = .standard :=
  (c.after_dispatch k).trans h.dispatch

/-- There are as many open calls as calls are nested. -/
theorem length_openCalls (h : c.CallsOnly depth n) :
    ((c.openCalls n).length : Int) = c.nesting n :=
  c.length_openCalls fun k hk => (h.nesting k hk).1

/-- When a return is executed, a call is open. -/
theorem exists_openCall (h : c.CallsOnly depth (n + 1))
    (hreturn : (c.after n).mnemonic? = some .rts) : ∃ i outer, c.openCalls n = i :: outer := by
  have hlength := (h.shorter (Nat.le_succ n)).length_openCalls
  have hnonneg := (h.nesting (n + 1) (Nat.le_refl _)).1
  rw [Cpu.nesting, hreturn, deepening] at hnonneg
  exact List.exists_cons_of_length_pos (by omega)

/-- The return addresses of the open calls are on the stack, in the room for so many of them. -/
theorem stacked_after (h : c.CallsOnly depth n) (hdepth : depth ≤ 128) :
    HasStacked c.memory c.s (2 * depth) (c.after n) (c.savedBytes n) := by
  induction n with
  | zero => exact .empty c.memory c.s (2 * depth)
  | succ n ih =>
    have hstacked := ih (h.shorter (Nat.le_succ n))
    rw [after_succ]
    rcases h.executes with hidle | hcall | hreturn
    · have hsaved : c.savedBytes (n + 1) = c.savedBytes n := by
        simp only [savedBytes, openCalls, hidle]
      rw [step_of_mnemonic?_eq_none (h.dispatch_after n) hidle, hsaved]
      exact hstacked
    · obtain ⟨last, totalCycles, hstep⟩ := step_call (h.dispatch_after n) hcall
      have hopen : c.openCalls (n + 1) = n :: c.openCalls n := by
        simp only [openCalls, hcall]
      -- the nesting after the call is within the depth, so there is room for two bytes more
      have hlength : (c.savedBytes n).length + 1 < 2 * depth := by
        have hdeep := (h.nesting (n + 1) (Nat.le_refl _)).2
        rw [← h.length_openCalls, hopen, List.length_cons] at hdeep
        rw [length_savedBytes]
        omega
      rw [hstep, savedBytes, hopen]
      exact hstacked.pushWord (by omega) hlength ((c.after n).pc + 2)
    · obtain ⟨last, totalCycles, hstep⟩ := step_return (h.dispatch_after n) hreturn
      obtain ⟨i, outer, hopen⟩ := h.exists_openCall hreturn
      have hopen' : c.openCalls (n + 1) = outer := by
        simp only [openCalls, hreturn, hopen, List.tail_cons]
      rw [savedBytes, hopen] at hstacked
      rw [hstep, savedBytes, hopen']
      exact hstacked.popWord.2

/-- A return continues behind the call that is open. -/
theorem pc_after_return (h : c.CallsOnly depth (n + 1)) (hdepth : depth ≤ 128)
    (hreturn : (c.after n).mnemonic? = some .rts) {i : Nat} {outer : List Nat}
    (hopen : c.openCalls n = i :: outer) : (c.after (n + 1)).pc = (c.after i).pc + 3 := by
  have hstacked := (h.shorter (Nat.le_succ n)).stacked_after hdepth
  rw [savedBytes, hopen] at hstacked
  obtain ⟨last, totalCycles, hstep⟩ := step_return (h.dispatch_after n) hreturn
  have hword : (c.after n).popWord.1 = (c.after i).pc + 2 :=
    hstacked.popWord.1.trans (wordOf_bytes _)
  rw [after_succ, hstep]
  change (c.after n).popWord.1 + 1 = _
  rw [hword, UInt16.add_assoc]
  rfl

/-- Calls and returns leave A, X, Y and the flags alone. -/
theorem registers_after (h : c.CallsOnly depth n) : (c.after n).registers = c.registers := by
  induction n with
  | zero => rfl
  | succ n ih =>
    have hbefore := ih (h.shorter (Nat.le_succ n))
    rw [after_succ, ← hbefore]
    rcases h.executes with hidle | hcall | hreturn
    · rw [step_of_mnemonic?_eq_none (h.dispatch_after n) hidle]
    · obtain ⟨last, totalCycles, hstep⟩ := step_call (h.dispatch_after n) hcall
      rw [hstep]
      rfl
    · obtain ⟨last, totalCycles, hstep⟩ := step_return (h.dispatch_after n) hreturn
      rw [hstep]
      rfl

end CallsOnly

/-- In a run that calls and returns and does nothing else, with calls that are nested at most 128
deep, every return belongs to a call and leads behind it. When every call has been returned from,
the stack pointer, the other registers and the flags are as they were at first, and so is the memory
but for the two slots of each call that can be open at a time. -/
theorem calls_nest (c : Cpu) (depth n : Nat) (hdispatch : c.dispatch = .standard)
    (hprogram : ∀ k < n, (c.after k).mnemonic? ∈ [none, some .jsr, some .rts])
    (hnesting : ∀ k ≤ n, 0 ≤ c.nesting k ∧ c.nesting k ≤ depth) (hdepth : depth ≤ 128)
    (hbalanced : c.nesting n = 0) :
    (∀ j < n, (c.after j).mnemonic? = some .rts → ∃ i, c.Returns i j) ∧
      (∀ i j, j < n → c.Returns i j → (c.after (j + 1)).pc = (c.after i).pc + 3) ∧
      (c.after n).s = c.s ∧ (c.after n).a = c.a ∧ (c.after n).x = c.x ∧ (c.after n).y = c.y ∧
      (c.after n).status = c.status ∧
      ∀ address, (∀ i < 2 * depth, address ≠ slot c.s i) →
        (c.after n).memory.read address = c.memory.read address := by
  have hrun : c.CallsOnly depth n := ⟨hdispatch, hprogram, hnesting⟩
  have hreturns {j : Nat} (hj : j < n) (hreturn : (c.after j).mnemonic? = some .rts) :
      ∃ i, c.Returns i j ∧ (c.after (j + 1)).pc = (c.after i).pc + 3 := by
    have hrun' : c.CallsOnly depth (j + 1) := hrun.shorter hj
    obtain ⟨i, outer, hopen⟩ := hrun'.exists_openCall hreturn
    have hnonneg : ∀ k ≤ j + 1, 0 ≤ c.nesting k := fun k hk => (hrun'.nesting k hk).1
    exact ⟨i, returns_of_openCalls hnonneg hopen hreturn,
      hrun'.pc_after_return hdepth hreturn hopen⟩
  have hstacked := hrun.stacked_after hdepth
  have hpointer : (c.after n).s = c.s := by
    have hnone : (c.savedBytes n).length = 0 := by
      have hlength := hrun.length_openCalls
      rw [length_savedBytes]
      omega
    rw [hstacked.pointer, hnone]
    exact UInt8.sub_zero c.s
  have hregisters := hrun.registers_after
  simp only [registers, Prod.mk.injEq] at hregisters
  obtain ⟨ha, hx, hy, hstatus⟩ := hregisters
  refine ⟨?_, ?_, hpointer, ha, hx, hy, hstatus, hstacked.frame⟩
  · intro j hj hreturn
    obtain ⟨i, hbelongs, -⟩ := hreturns hj hreturn
    exact ⟨i, hbelongs⟩
  · intro i j hj hbelongs
    obtain ⟨i', hbelongs', hpc⟩ := hreturns hj hbelongs.returns
    rw [hbelongs.unique hbelongs', hpc]

/-- A processor about to call a subroutine that returns at once. The instruction wraps around the end
of the address space, and the stack around the end of its page. -/
def visiting : Cpu where
  pc := 0xFFFE
  s := 0x00
  memory := (((Memory.zero.write 0xFFFE 0x20).write 0xFFFF 0x34).write 0x0000 0x12).write 0x1234 0x60

/-- The first step is the call. -/
theorem visiting_calls : visiting.mnemonic? = some .jsr := by
  have hopcode : visiting.opcode = 0x20 := by simp [opcode, visiting, Memory.read_write]
  have hd : visiting.descriptor? = some (.single 0x20 .jsr .absolute 6) := by
    rw [descriptor?_eq_find?, hopcode]
    decide +kernel
  exact mnemonic?_of_descriptor? rfl hd

/-- The second step is the return. -/
theorem visiting_returns : (visiting.after 1).mnemonic? = some .rts := by
  have hdispatch : visiting.dispatch = .standard := rfl
  obtain ⟨last, totalCycles, hstep⟩ := step_call hdispatch visiting_calls
  have htarget : visiting.memory.readWord (visiting.pc + 1) = 0x1234 := by
    simp [visiting, Memory.readWord, Memory.read_write]
    rfl
  have hafter : visiting.after 1 = visiting.step.cpu := by rw [after, after]
  have hopcode : (visiting.after 1).opcode = 0x60 := by
    rw [hafter, hstep]
    change Memory.read _ (visiting.memory.readWord (visiting.pc + 1)) = 0x60
    rw [htarget]
    simp [visiting, pushWord, push, stackAddress, Memory.read_write]
    decide
  have hhalted : (visiting.after 1).halted = false := by
    rw [hafter, hstep]
    rfl
  have hd : (visiting.after 1).descriptor? = some (.single 0x60 .rts .implied 6) := by
    rw [descriptor?_eq_find?, hopcode]
    decide +kernel
  exact mnemonic?_of_descriptor? hhalted hd

/-- The return leads behind the call and leaves the stack pointer as it was. -/
theorem calls_nest_visiting :
    visiting.dispatch = .standard ∧
      (∀ k < 2, (visiting.after k).mnemonic? ∈ [none, some .jsr, some .rts]) ∧
      (∀ k ≤ 2, 0 ≤ visiting.nesting k ∧ visiting.nesting k ≤ (1 : Nat)) ∧
      visiting.nesting 2 = 0 ∧ (visiting.after 2).pc = 0x0001 ∧ (visiting.after 2).s = 0x00 := by
  have hprogram : ∀ k < 2, (visiting.after k).mnemonic? ∈ [none, some .jsr, some .rts] := by
    intro k hk
    obtain rfl | rfl : k = 0 ∨ k = 1 := by omega
    · simp [after, visiting_calls]
    · simp [visiting_returns]
  have hone : visiting.nesting 1 = 1 := by
    rw [nesting, after, visiting_calls]
    rfl
  have htwo : visiting.nesting 2 = 0 := by
    rw [nesting, hone, visiting_returns]
    rfl
  have hnesting : ∀ k ≤ 2, 0 ≤ visiting.nesting k ∧ visiting.nesting k ≤ (1 : Nat) := by
    intro k hk
    obtain rfl | rfl | rfl : k = 0 ∨ k = 1 ∨ k = 2 := by omega
    · decide
    · rw [hone]
      decide
    · rw [htwo]
      decide
  obtain ⟨hreturns, hpc, hs, -⟩ :=
    calls_nest visiting 1 2 rfl hprogram hnesting (by decide) htwo
  obtain ⟨i, hbelongs⟩ := hreturns 1 (by decide) visiting_returns
  obtain rfl : i = 0 := by
    have hlt := hbelongs.lt
    omega
  exact ⟨rfl, hprogram, hnesting, htwo, hpc 0 1 (by decide) hbelongs, hs⟩

end Cpu

end Core65C02
