import Core65C02.Proofs.Arithmetic.Chain

/-!
# Binary arithmetic and comparison of numbers of several bytes

Chains of binary additions and subtractions are exact up to the last carry, and the last Overflow
and Negative tell of the exact result in two's complement. A comparison settles the flags as the
subtraction does whose result is thrown away, so a comparison of the lowest bytes takes the place of
the first subtraction in a chain. The main statement puts this together.
-/

namespace Core65C02

open Numeral

/-- The difference of two bytes and a borrow, as a sum with the complement. -/
theorem subtractBinary_eq (a b : UInt8) (carry : Bool) :
    (subtractBinary a b carry).value.toNat + 256 * (subtractBinary a b carry).carry.toNat =
      a.toNat + (256 - 1 - b.toNat) + carry.toNat := by
  have hsum := addBinary_eq a (~~~b) carry
  rw [UInt8.toNat_not] at hsum
  exact hsum

/-- Without a borrow a binary subtraction compares its operands. -/
theorem subtractBinary_true (a b : UInt8) :
    (subtractBinary a b true).value = a - b ∧ (subtractBinary a b true).carry = decide (b ≤ a) := by
  have hsum := subtractBinary_eq a b true
  have hvalue := (subtractBinary a b true).value.toNat_lt
  have ha := a.toNat_lt
  have hb := b.toNat_lt
  rw [Bool.toNat_true] at hsum
  refine ⟨UInt8.toNat_inj.mp ?_, ?_⟩
  · rw [UInt8.toNat_sub]
    have hout := (subtractBinary a b true).carry.toNat_le
    omega
  · rw [Bool.eq_iff_iff, decide_eq_true_eq, UInt8.le_iff_toNat_le]
    cases hcarry : (subtractBinary a b true).carry with
    | false =>
      rw [hcarry, Bool.toNat_false] at hsum
      simp only [Bool.false_eq_true, false_iff]
      omega
    | true =>
      rw [hcarry, Bool.toNat_true] at hsum
      simp only [true_iff]
      omega

/-- A comparison succeeds, changes no register and settles Carry, Zero and Negative. -/
theorem Cpu.Applies.compare_eq {c : Cpu} {m : Mnemonic} {r : Register} {b : UInt8}
    (happlies : c.Applies m b) (hcompare : m.operation = .compare r) :
    c.step.result = .ok .proceed ∧ (∀ r', c.step.cpu.register r' = c.register r') ∧
      c.step.cpu.status =
        { c.status with carry := b ≤ c.register r }.ofValue (c.register r - b) := by
  obtain ⟨d, o, _, hb, hcpu, hresult⟩ := happlies.step_eq (by rw [hcompare]; rfl)
  rw [hcompare] at hcpu hresult
  refine ⟨hresult, fun r' => ?_, ?_⟩
  · rw [hcpu, executed_eq]
    cases r' <;> rfl
  · rw [hcpu, executed_eq, ← hb]
    rfl

/-- A comparison settles Carry, Zero and Negative as a binary subtraction without a borrow does, and
keeps the other flags. -/
theorem Cpu.Applies.compare_eq_subtract {c c' : Cpu} {m : Mnemonic} {r : Register} {b : UInt8}
    (happlies : c.Applies m b) (hcompare : m.operation = .compare r) (happlies' : c'.Applies .sbc b)
    (ha : c'.a = c.register r) (hcarry : c'.status.carry = true)
    (hdecimal : c'.status.decimalMode = false) :
    c.step.cpu.status =
      { c.status with
        carry := c'.step.cpu.status.carry
        zero := c'.step.cpu.status.zero
        negative := c'.step.cpu.status.negative } := by
  obtain ⟨_, _, hstatus⟩ := happlies.compare_eq hcompare
  obtain ⟨_, _, hstatus'⟩ := computes_subtract false happlies' hdecimal
  obtain ⟨hvalue, hout⟩ := subtractBinary_true (c.register r) b
  rw [ha, hcarry] at hstatus'
  rw [hstatus, hstatus', ← hvalue, ← hout]
  rfl

namespace Chain

variable {flags last : StatusFlags} {as bs : List UInt8} {outs : List StepOutcome}

/-- Along a chain of additions without decimal mode, the numbers and the first Carry add up. What
does not fit is the last Carry. -/
theorem binary_add (hflags : flags.decimalMode = false)
    (hchain : Chain .adc flags as bs outs last) :
    unsigned (results outs) + 256 ^ as.length * last.carry.toNat =
      unsigned as + unsigned bs + flags.carry.toNat :=
  (hchain.number_eq (P := fun _ => True) (computes_add false) hflags
    (fun a b carry _ _ => ⟨trivial, addBinary_eq a b carry⟩) (fun _ _ => trivial)
    fun _ _ => trivial).2

/-- Along a chain of subtractions without decimal mode, one number is subtracted from the other, and
a Carry that is clear is a borrow, at the beginning and at the end. -/
theorem binary_subtract (hflags : flags.decimalMode = false)
    (hchain : Chain .sbc flags as bs outs last) :
    (unsigned (results outs) : Int) - 256 ^ as.length * (1 - last.carry.toNat) =
      unsigned as - unsigned bs - (1 - flags.carry.toNat) := by
  have hdigit (b : UInt8) (_ : True) : b.toNat < 256 := b.toNat_lt
  have hdifference := (hchain.difference_eq (computes_subtract false) hflags hdigit
    (fun a b carry _ _ => ⟨trivial, subtractBinary_eq a b carry⟩) (fun _ _ => trivial)
    fun _ _ => trivial).2
  simpa only [unsigned, Nat.cast_ofNat] using hdifference

/-- What the last flags of a chain of additions tell of the sum in two's complement. -/
theorem signs_add (hflags : flags.decimalMode = false) (has : as ≠ [])
    (hchain : Chain .adc flags as bs outs last) :
    (last.negative = true ↔ signed (results outs) < 0) ∧
      (last.overflow = true ↔
        ¬ Fits as.length (signed as + signed bs + flags.carry.toNat)) := by
  obtain ⟨hnegative, hoverflow, _⟩ :=
    hchain.signs (computes_add false) hflags
      (fun a b carry => (rfl : addBinary a b carry = addBinary a (id b) carry)) has
  rw [List.map_id'] at hoverflow
  exact ⟨hnegative, hoverflow⟩

/-- What the last flags of a chain of subtractions tell of the difference in two's complement. -/
theorem signs_subtract (hflags : flags.decimalMode = false) (has : as ≠ [])
    (hchain : Chain .sbc flags as bs outs last) :
    (last.negative = true ↔ signed (results outs) < 0) ∧
      (last.overflow = true ↔
        ¬ Fits as.length (signed as - signed bs - (1 - flags.carry.toNat))) ∧
      ((last.negative ^^ last.overflow) = true ↔
        signed as - signed bs - (1 - flags.carry.toNat) < 0) := by
  have hbs : bs ≠ [] := by
    rw [← List.length_pos_iff, hchain.length_eq.1]
    exact List.length_pos_iff.mpr has
  have hexact : signed as + signed (bs.map (~~~·)) + flags.carry.toNat =
      signed as - signed bs - (1 - flags.carry.toNat) := by
    rw [signed_complement hbs]
    ring
  rw [← hexact]
  exact hchain.signs (computes_subtract false) hflags (fun _ _ _ => rfl) has

/-- A comparison of the lowest bytes and subtractions of the others end with the flags of a chain of
subtractions that starts without a borrow. -/
theorem exists_of_compare {c : Cpu} {b : UInt8} (happlies : c.Applies .cmp b)
    (hdecimal : c.status.decimalMode = false) (has : as ≠ [])
    (hchain : Chain .sbc c.step.cpu.status as bs outs last) :
    ∃ out, Chain .sbc { carry := true } (c.a :: as) (b :: bs) (out :: outs) last := by
  obtain ⟨c', happlies', ha, hstatus⟩ := Cpu.exists_applies (m := .sbc) (by simp) c.a b
    { carry := true }
  have hcarry' : c'.status.carry = true := by rw [hstatus]
  have hmode' : c'.status.decimalMode = false := by rw [hstatus]
  have hcompare := happlies.compare_eq_subtract rfl happlies' ha hcarry' hmode'
  refine ⟨c'.step, ha ▸ .cons happlies' hcarry' hmode' ?_⟩
  cases hchain with
  | nil => exact absurd rfl has
  | cons hnext hcarry hmode hrest =>
    refine .cons hnext (hcarry.trans ?_) (hmode.trans ?_) hrest
    · rw [hcompare]
    · rw [hcompare, Computes.decimalMode_eq (computes_subtract false) happlies' hmode']
      exact hdecimal

/-- A comparison that starts at the lowest bytes compares whole numbers: Carry tells that the first
is not less, and Negative and Overflow together that it is less in two's complement. -/
theorem compare_iff {c : Cpu} {b : UInt8} (happlies : c.Applies .cmp b)
    (hdecimal : c.status.decimalMode = false) (has : as ≠ [])
    (hchain : Chain .sbc c.step.cpu.status as bs outs last) :
    (last.carry = true ↔ unsigned (b :: bs) ≤ unsigned (c.a :: as)) ∧
      ((last.negative ^^ last.overflow) = true ↔ signed (c.a :: as) < signed (b :: bs)) := by
  obtain ⟨out, hwhole⟩ := exists_of_compare happlies hdecimal has hchain
  have hdifference := binary_subtract rfl hwhole
  obtain ⟨_, _, hsign⟩ := signs_subtract rfl (List.cons_ne_nil c.a as) hwhole
  have hlt := unsigned_lt (results (out :: outs))
  rw [hwhole.length_results] at hlt
  zify at hlt
  rw [Bool.toNat_true, Nat.cast_one, sub_self, sub_zero] at hdifference hsign
  refine ⟨?_, hsign.trans sub_neg⟩
  cases hcarry : last.carry with
  | false =>
    rw [hcarry, Bool.toNat_false] at hdifference
    simp only [Bool.false_eq_true, false_iff]
    omega
  | true =>
    rw [hcarry, Bool.toNat_true] at hdifference
    simp only [true_iff]
    omega

/-- Binary arithmetic is exact on numbers of any length. Chains of additions and of subtractions can
be made of any bytes, and each of their steps succeeds. The last carry is what does not fit into the
results; Overflow tells that the exact result has no two's complement of that length, and Negative
is the sign of what is there. A comparison of the lowest bytes and subtractions of the others
compare numbers, without a sign and in two's complement. A comparison, also in decimal mode, settles
Carry, Zero and Negative as a binary subtraction without a borrow, and changes nothing else of the
registers and flags. -/
theorem binary_exact (hlength : as.length = bs.length) (has : as ≠ [])
    (hflags : flags.decimalMode = false) :
    (∀ m ∈ [.adc, .sbc], ∃ outs last, Chain m flags as bs outs last) ∧
    (∀ m ∈ [.adc, .sbc], ∀ outs last, Chain m flags as bs outs last →
      outs.length = as.length ∧ ∀ out ∈ outs, out.Settled false) ∧
    (∀ outs last, Chain .adc flags as bs outs last →
      unsigned (results outs) + 256 ^ as.length * last.carry.toNat =
        unsigned as + unsigned bs + flags.carry.toNat ∧
      (last.overflow = true ↔ ¬ Fits as.length (signed as + signed bs + flags.carry.toNat)) ∧
      (last.negative = true ↔ signed (results outs) < 0)) ∧
    (∀ outs last, Chain .sbc flags as bs outs last →
      (unsigned (results outs) : Int) - 256 ^ as.length * (1 - last.carry.toNat) =
        unsigned as - unsigned bs - (1 - flags.carry.toNat) ∧
      (last.overflow = true ↔
        ¬ Fits as.length (signed as - signed bs - (1 - flags.carry.toNat))) ∧
      (last.negative = true ↔ signed (results outs) < 0)) ∧
    (∀ (c : Cpu) b outs last, c.Applies .cmp b → c.status.decimalMode = false →
      Chain .sbc c.step.cpu.status as bs outs last →
      (last.carry = true ↔ unsigned (b :: bs) ≤ unsigned (c.a :: as)) ∧
      ((last.negative ^^ last.overflow) = true ↔ signed (c.a :: as) < signed (b :: bs))) ∧
    ∀ (m : Mnemonic) (r : Register), (m, r) ∈ [(.cmp, .a), (.cpx, .x), (.cpy, .y)] →
      ∀ (c : Cpu) b, c.Applies m b →
      c.step.result = .ok .proceed ∧ (∀ r', c.step.cpu.register r' = c.register r') ∧
      ∀ c' : Cpu, c'.Applies .sbc b → c'.a = c.register r → c'.status.carry = true →
        c'.status.decimalMode = false →
        c.step.cpu.status =
          { c.status with
            carry := c'.step.cpu.status.carry
            zero := c'.step.cpu.status.zero
            negative := c'.step.cpu.status.negative } := by
  refine ⟨fun m hm => exists_chain hm hlength flags, fun m hm outs last hchain => ?_,
    fun outs last hchain => ?_, fun outs last hchain => ?_,
    fun c b outs last happlies hdecimal hchain => compare_iff happlies hdecimal has hchain,
    fun m r hr c b happlies => ?_⟩
  · refine ⟨hchain.length_eq.2, ?_⟩
    simp only [List.mem_cons, List.not_mem_nil, or_false] at hm
    rcases hm with rfl | rfl
    · exact hchain.settled (computes_add false) hflags
    · exact hchain.settled (computes_subtract false) hflags
  · obtain ⟨hnegative, hoverflow⟩ := signs_add hflags has hchain
    exact ⟨binary_add hflags hchain, hoverflow, hnegative⟩
  · obtain ⟨hnegative, hoverflow, _⟩ := signs_subtract hflags has hchain
    exact ⟨binary_subtract hflags hchain, hoverflow, hnegative⟩
  · have hcompare : m.operation = .compare r := by
      simp only [List.mem_cons, List.not_mem_nil, or_false, Prod.mk.injEq] at hr
      rcases hr with ⟨rfl, rfl⟩ | ⟨rfl, rfl⟩ | ⟨rfl, rfl⟩ <;> rfl
    obtain ⟨hresult, hregisters, _⟩ := happlies.compare_eq hcompare
    exact ⟨hresult, hregisters, fun c' happlies' ha hcarry hdecimal =>
      happlies.compare_eq_subtract hcompare happlies' ha hcarry hdecimal⟩

/-- The greatest number of two bytes in two's complement less the least one overflows, and a
comparison of three bytes that begin with these tells the two orders apart. -/
theorem binary_exact_extremes :
    ∃ outs last, ∃ c : Cpu, ∃ outs' last',
      Chain .sbc { carry := true } [0xFF, 0x7F] [0x00, 0x80] outs last ∧
      unsigned (results outs) = 0xFFFF ∧ last.carry = false ∧ last.overflow = true ∧
      last.negative = true ∧
      c.Applies .cmp 0x01 ∧ c.a = 0x00 ∧ c.status.decimalMode = false ∧
      Chain .sbc c.step.cpu.status [0xFF, 0x7F] [0x00, 0x80] outs' last' ∧
      last'.carry = false ∧ (last'.negative ^^ last'.overflow) = false := by
  obtain ⟨hexists, -, -, hsubtract, -⟩ :=
    @binary_exact { carry := true } [0xFF, 0x7F] [0x00, 0x80] rfl (List.cons_ne_nil _ _) rfl
  obtain ⟨outs, last, hchain⟩ := hexists .sbc (by simp)
  obtain ⟨hdifference, hoverflow, hnegative⟩ := hsubtract outs last hchain
  obtain ⟨c, happlies, ha, hstatus⟩ := Cpu.exists_applies (m := .cmp) (by simp) 0x00 0x01 {}
  obtain ⟨-, -, hcompared⟩ := happlies.compare_eq rfl
  have hdecimal : c.step.cpu.status.decimalMode = false := by
    rw [hcompared, hstatus]
    rfl
  obtain ⟨hexists', -, -, -, hcompare, -⟩ :=
    @binary_exact c.step.cpu.status [0xFF, 0x7F] [0x00, 0x80] rfl (List.cons_ne_nil _ _) hdecimal
  obtain ⟨outs', last', hchain'⟩ := hexists' .sbc (by simp)
  obtain ⟨hcarry, hless⟩ := hcompare c 0x01 outs' last' happlies (by rw [hstatus]) hchain'
  have hlt := unsigned_lt (results outs)
  have hlength : (results outs).length = 2 := hchain.length_results
  rw [hlength] at hlt
  rw [ha] at hcarry hless
  have hexact : (unsigned (results outs) : Int) - 65536 * (1 - last.carry.toNat) =
    0x7FFF - 0x8000 - (1 - 1) := hdifference
  have hborrow : last.carry = false := by
    refine Bool.eq_false_of_not_eq_true fun h => ?_
    rw [h, Bool.toNat_true] at hexact
    omega
  have hvalue : unsigned (results outs) = 0xFFFF := by
    rw [hborrow, Bool.toNat_false] at hexact
    omega
  refine ⟨outs, last, c, outs', last', hchain, hvalue, hborrow, ?_, ?_, happlies, ha,
    by rw [hstatus], hchain', ?_, ?_⟩
  · exact hoverflow.mpr (by unfold Fits; decide)
  · rw [hnegative, signed_eq, hvalue, hlength]
    decide
  · exact Bool.eq_false_of_not_eq_true (mt hcarry.mp (by decide))
  · exact Bool.eq_false_of_not_eq_true (mt hless.mp (by decide))

end Chain

end Core65C02
