import Core65C02.Proofs.Arithmetic.Chain

/-!
# Decimal arithmetic on numbers of several bytes

Decimal addition works on nibbles and corrects each by six, decimal subtraction takes the binary
difference and corrects it afterwards. On bytes whose nibbles are digits both are exact, with the
carry as what does not fit, and so are chains of them. The main statement says what chains make of
decimal numbers, and that a subtraction undoes an addition.
-/

namespace Core65C02

open Numeral

namespace Numeral

/-- Two decimal digits stand for a number below a hundred. -/
theorem digitPair_lt {b : UInt8} (hb : IsDecimal b) : digitPair b < 100 := by
  obtain ⟨hhigh, hlow⟩ := hb
  unfold digitPair
  omega

/-- Two decimal digits stand for one number only. -/
theorem eq_of_digitPair_eq {a b : UInt8} (ha : IsDecimal a) (hb : IsDecimal b)
    (h : digitPair a = digitPair b) : a = b := by
  obtain ⟨_, halow⟩ := ha
  obtain ⟨_, hblow⟩ := hb
  unfold digitPair at h
  refine UInt8.toNat_inj.mp ?_
  omega

/-- Decimal bytes stand for a number of at most two digits for each of them. -/
theorem decimal_lt {bytes : List UInt8} (hbytes : ∀ b ∈ bytes, IsDecimal b) :
    decimal bytes < 100 ^ bytes.length :=
  number_lt (by decide) fun b hb => digitPair_lt (hbytes b hb)

/-- Decimal digits are determined by the number that they stand for. -/
theorem eq_of_decimal_eq {as bs : List UInt8} (hlength : as.length = bs.length)
    (has : ∀ a ∈ as, IsDecimal a) (hbs : ∀ b ∈ bs, IsDecimal b) (h : decimal as = decimal bs) :
    as = bs :=
  eq_of_number_eq (by decide) hlength (fun _ => digitPair_lt) (fun _ _ => eq_of_digitPair_eq) has
    hbs h

end Numeral

namespace Chain

variable {flags last : StatusFlags} {as bs : List UInt8} {outs : List StepOutcome}

/-- A chain of decimal additions adds decimal numbers. -/
theorem decimal_add (hflags : flags.decimalMode = true) (has : ∀ a ∈ as, IsDecimal a)
    (hbs : ∀ b ∈ bs, IsDecimal b) (hchain : Chain .adc flags as bs outs last) :
    (∀ r ∈ results outs, IsDecimal r) ∧
      decimal (results outs) + 100 ^ as.length * last.carry.toNat =
        decimal as + decimal bs + flags.carry.toNat :=
  hchain.number_eq (computes_add true) hflags
    (fun _ _ carry ha hb => addDecimal_eq ha hb carry) has hbs

/-- A chain of decimal subtractions subtracts decimal numbers. -/
theorem decimal_subtract (hflags : flags.decimalMode = true) (has : ∀ a ∈ as, IsDecimal a)
    (hbs : ∀ b ∈ bs, IsDecimal b) (hchain : Chain .sbc flags as bs outs last) :
    (∀ r ∈ results outs, IsDecimal r) ∧
      (decimal (results outs) : Int) - 100 ^ as.length * (1 - last.carry.toNat) =
        decimal as - decimal bs - (1 - flags.carry.toNat) := by
  simpa only [decimal, Nat.cast_ofNat] using hchain.difference_eq (computes_subtract true) hflags
    (fun _ => digitPair_lt) (fun _ _ carry ha hb => subtractDecimal_eq ha hb carry) has hbs

/-- A chain of subtractions takes back what a chain of additions has added, if it starts with the
borrow that stands for the carry with which the other one started. -/
theorem decimal_subtract_add (hflags : flags.decimalMode = true) (has : ∀ a ∈ as, IsDecimal a)
    (hbs : ∀ b ∈ bs, IsDecimal b) (hchain : Chain .adc flags as bs outs last)
    {flags' last' : StatusFlags} {outs' : List StepOutcome} (hflags' : flags'.decimalMode = true)
    (hcarry : flags'.carry = !flags.carry)
    (hchain' : Chain .sbc flags' (results outs) bs outs' last') : results outs' = as := by
  obtain ⟨hresults, hsum⟩ := decimal_add hflags has hbs hchain
  obtain ⟨hresults', hdifference⟩ := decimal_subtract hflags' hresults hbs hchain'
  have hlength := hchain.length_results
  have hlength' := hchain'.length_results.trans hlength
  have hlt := decimal_lt has
  have hlt' := decimal_lt hresults'
  rw [hlength'] at hlt'
  have hborrow : ((!flags.carry).toNat : Int) = 1 - flags.carry.toNat := by
    cases flags.carry <;> rfl
  rw [hlength, hcarry, hborrow] at hdifference
  zify at hsum hlt hlt'
  have hexact : (decimal (results outs') : Int) +
      100 ^ as.length * (last.carry.toNat + last'.carry.toNat - 1) = decimal as := by
    linear_combination hdifference + hsum
  -- what the addition carried out is what the subtraction borrowed
  have hcarries : (last.carry.toNat + last'.carry.toNat - 1 : Int) = -1 ∨
      (last.carry.toNat + last'.carry.toNat - 1 : Int) = 0 ∨
      (last.carry.toNat + last'.carry.toNat - 1 : Int) = 1 := by
    have hcarry := last.carry.toNat_le
    have hcarry' := last'.carry.toNat_le
    omega
  refine eq_of_decimal_eq hlength' hresults' has ?_
  rcases hcarries with hcarries | hcarries | hcarries <;> rw [hcarries] at hexact <;> omega

/-- Decimal arithmetic is exact on numbers of any length. Chains of additions and of subtractions
can be made of any decimal digits; each of their steps succeeds, derives Zero and Negative from its
result and leaves the decimal flag set; the results are decimal digits, and the last carry is what
does not fit into them. A subtraction of what was added, from the sum, gives back what it was added
to. -/
theorem decimal_exact (hlength : as.length = bs.length) (has : ∀ a ∈ as, IsDecimal a)
    (hbs : ∀ b ∈ bs, IsDecimal b) (hflags : flags.decimalMode = true) :
    (∀ m ∈ [.adc, .sbc], ∃ outs last, Chain m flags as bs outs last) ∧
    (∀ m ∈ [.adc, .sbc], ∀ outs last, Chain m flags as bs outs last →
      outs.length = as.length ∧ ∀ out ∈ outs, out.Settled true ∧ IsDecimal out.cpu.a) ∧
    (∀ outs last, Chain .adc flags as bs outs last →
      decimal (results outs) + 100 ^ as.length * last.carry.toNat =
        decimal as + decimal bs + flags.carry.toNat) ∧
    (∀ outs last, Chain .sbc flags as bs outs last →
      (decimal (results outs) : Int) - 100 ^ as.length * (1 - last.carry.toNat) =
        decimal as - decimal bs - (1 - flags.carry.toNat)) ∧
    ∀ outs last flags' outs' last', Chain .adc flags as bs outs last →
      flags'.decimalMode = true → flags'.carry = !flags.carry →
      Chain .sbc flags' (results outs) bs outs' last' → results outs' = as := by
  refine ⟨fun m hm => exists_chain hm hlength flags, fun m hm outs last hchain => ?_,
    fun outs last hchain => (decimal_add hflags has hbs hchain).2,
    fun outs last hchain => (decimal_subtract hflags has hbs hchain).2,
    fun outs last flags' outs' last' hchain hflags' hcarry hchain' =>
      decimal_subtract_add hflags has hbs hchain hflags' hcarry hchain'⟩
  refine ⟨hchain.length_eq.2, fun out hout => ?_⟩
  have hmem : out.cpu.a ∈ results outs := List.mem_map_of_mem hout
  simp only [List.mem_cons, List.not_mem_nil, or_false] at hm
  rcases hm with rfl | rfl
  · exact ⟨hchain.settled (computes_add true) hflags out hout,
      (decimal_add hflags has hbs hchain).1 _ hmem⟩
  · exact ⟨hchain.settled (computes_subtract true) hflags out hout,
      (decimal_subtract hflags has hbs hchain).1 _ hmem⟩

/-- The sum of 4599 and 5401 with a carry. It does not fit, and subtracting leads back. -/
theorem decimal_exact_carrying :
    ∃ outs last outs' last',
      Chain .adc { carry := true, decimalMode := true } [0x99, 0x45] [0x01, 0x54] outs last ∧
      results outs = [0x01, 0x00] ∧ last.carry = true ∧
      Chain .sbc { decimalMode := true } (results outs) [0x01, 0x54] outs' last' ∧
      results outs' = [0x99, 0x45] := by
  have hsummands : ∀ b ∈ ([0x99, 0x45] : List UInt8), IsDecimal b := by
    simp only [List.forall_mem_cons]
    exact ⟨by decide, by decide, by simp⟩
  have haddends : ∀ b ∈ ([0x01, 0x54] : List UInt8), IsDecimal b := by
    simp only [List.forall_mem_cons]
    exact ⟨by decide, by decide, by simp⟩
  have hzero : ∀ b ∈ ([0x01, 0x00] : List UInt8), IsDecimal b := by
    simp only [List.forall_mem_cons]
    exact ⟨by decide, by decide, by simp⟩
  obtain ⟨hexists, hdigits, hsum, -, hback⟩ :=
    @decimal_exact { carry := true, decimalMode := true } [0x99, 0x45] [0x01, 0x54] rfl hsummands
      haddends rfl
  obtain ⟨outs, last, hchain⟩ := hexists .adc List.mem_cons_self
  obtain ⟨_, hsettled⟩ := hdigits .adc List.mem_cons_self outs last hchain
  have hresults : ∀ r ∈ results outs, IsDecimal r := by
    intro r hr
    obtain ⟨out, hout, rfl⟩ := List.mem_map.mp hr
    exact (hsettled out hout).2
  have hlength : (results outs).length = 2 := hchain.length_results
  have hexact : decimal (results outs) + 10000 * last.carry.toNat = 4599 + 5401 + 1 :=
    hsum outs last hchain
  have hlt : decimal (results outs) < 100 ^ 2 := hlength ▸ decimal_lt hresults
  have hcarry : last.carry = true := by
    refine Bool.eq_true_of_not_eq_false fun h => ?_
    rw [h, Bool.toNat_false] at hexact
    omega
  have hresult : results outs = [0x01, 0x00] := by
    rw [hcarry, Bool.toNat_true] at hexact
    refine eq_of_decimal_eq hlength hresults hzero (Eq.trans ?_ (by decide : 1 = decimal [1, 0]))
    omega
  obtain ⟨hexists', -⟩ :=
    @decimal_exact { decimalMode := true } _ [0x01, 0x54] hlength hresults haddends rfl
  obtain ⟨outs', last', hchain'⟩ := hexists' .sbc (List.mem_cons_of_mem _ List.mem_cons_self)
  exact ⟨outs, last, outs', last', hchain, hresult, hcarry, hchain',
    hback outs last _ outs' last' hchain rfl rfl hchain'⟩

end Chain

end Core65C02
