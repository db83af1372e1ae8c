import Core65C02.Proofs.Snapshot.Overrides

/-!
# Taking over a raw state

A raw state is validated before a processor is touched: first its memory, entry by entry and each
address before its byte, then its registers in the order pc, a, x, y, s, p. Which states are valid,
what is wrong with the others in the first place and what a valid state says are defined here apart
from the validation. The main statement is that a processor is replaced completely or not at all.
-/

namespace Core65C02

namespace RawState

/-- A register as a raw state gives it. -/
structure Field where
  /-- The name of the register. -/
  name : String
  /-- How many bits the register has. -/
  bits : Nat
  /-- The value that is given, if there is one. -/
  value : Option Nat

/-- A register is given, and its value is not too large. -/
def Field.Fits (r : Field) : Prop := ∃ n, r.value = some n ∧ n < 1 <<< r.bits

/-- The registers of a raw state, in the order in which they are checked. -/
def registers (raw : RawState) : List Field :=
  [⟨"pc", 16, raw.pc⟩, ⟨"a", 8, raw.a⟩, ⟨"x", 8, raw.x⟩, ⟨"y", 8, raw.y⟩, ⟨"s", 8, raw.s⟩,
    ⟨"p", 8, raw.p⟩]

/-- The address and the byte of an entry of memory are not too large. -/
def EntryFits (entry : Nat × Nat) : Prop := entry.1 < 65536 ∧ entry.2 < 256

/-- A raw state that stands for a snapshot. -/
structure Valid (raw : RawState) : Prop where
  /-- Memory is given for addresses that exist, byte by byte. -/
  ram : ∀ entry ∈ raw.ram, EntryFits entry
  /-- All registers are given, with values that they can have. -/
  registers : ∀ r ∈ raw.registers, r.Fits

/-- What is wrong with an entry of memory. The address is looked at first. -/
inductive EntryFault : Nat × Nat → StateError → Prop
  /-- There is no such address. -/
  | address {address : Nat} (h : 65536 ≤ address) (value : Nat) :
    EntryFault (address, value) (.addressOutOfRange address)
  /-- The value is no byte. -/
  | value {address value : Nat} (haddress : address < 65536) (h : 256 ≤ value) :
    EntryFault (address, value)
      (.valueOutOfRange ("ram[0x" ++ Hex.address (.ofNat address) ++ "]") value 8)

/-- What is wrong with a register. -/
inductive FieldFault : Field → StateError → Prop
  /-- The register is not given. -/
  | missing (name : String) (bits : Nat) : FieldFault ⟨name, bits, none⟩ (.missingField name)
  /-- The value needs more bits than the register has. -/
  | tooLarge (name : String) {bits value : Nat} (h : 1 <<< bits ≤ value) :
    FieldFault ⟨name, bits, some value⟩ (.valueOutOfRange name value bits)

/-- What is wrong with a raw state in the first place. -/
inductive FirstFault (raw : RawState) : StateError → Prop
  /-- An entry of memory is wrong, and those before it are not. -/
  | entry {before after : List (Nat × Nat)} {entry : Nat × Nat} {e : StateError}
    (hram : raw.ram = before ++ entry :: after) (hbefore : ∀ other ∈ before, EntryFits other)
    (hfault : EntryFault entry e) : FirstFault raw e
  /-- A register is wrong, and neither memory nor the registers before it are. -/
  | register (hram : ∀ entry ∈ raw.ram, EntryFits entry) {before after : List Field}
    {r : Field} {e : StateError} (hregisters : raw.registers = before ++ r :: after)
    (hbefore : ∀ other ∈ before, other.Fits) (hfault : FieldFault r e) : FirstFault raw e

/-- The value that a raw state lists for an address. The last one counts. -/
def listed? (raw : RawState) (address : UInt16) : Option Nat :=
  ((raw.ram.filter fun entry => entry.1 = address.toNat).getLast?).map Prod.snd

/-- A snapshot says the same as a raw state. -/
structure Describes (raw : RawState) (state : Snapshot) : Prop where
  pc : raw.pc = some state.pc.toNat
  a : raw.a = some state.a.toNat
  x : raw.x = some state.x.toNat
  y : raw.y = some state.y.toNat
  s : raw.s = some state.s.toNat
  p : raw.p = some state.p.toNat
  listed : ∀ address, raw.listed? address = (state.memory.listed? address).map UInt8.toNat

section Checks

/-- An entry is accepted as it is, if it fits. -/
theorem entry?_eq_ok_iff {entry : Nat × Nat} {e : UInt16 × UInt8} :
    entry? entry.1 entry.2 = .ok e ↔
      EntryFits entry ∧ e = (.ofNat entry.1, .ofNat entry.2) := by
  obtain ⟨address, value⟩ := entry
  unfold entry? EntryFits
  by_cases haddress : 0xFFFF < address
  · rw [if_pos haddress]
    simp
    omega
  · rw [if_neg haddress]
    by_cases hvalue : 0xFF < value
    · rw [if_pos hvalue]
      simp
      omega
    · rw [if_neg hvalue]
      have haddress : address < 65536 := by omega
      have hvalue : value < 256 := by omega
      simp [haddress, hvalue, eq_comm]

/-- An entry is refused for its fault. -/
theorem entry?_eq_error_iff {entry : Nat × Nat} {e : StateError} :
    entry? entry.1 entry.2 = .error e ↔ EntryFault entry e := by
  obtain ⟨address, value⟩ := entry
  unfold entry?
  constructor
  · intro h
    split at h
    · rename_i haddress
      cases h
      exact .address haddress value
    · rename_i haddress
      split at h
      · rename_i hvalue
        cases h
        exact .value (by omega) hvalue
      · cases h
  · intro h
    cases h with
    | address haddress => exact if_pos haddress
    | value haddress hvalue => exact (if_neg (by omega)).trans (if_pos hvalue)

/-- The check of a register. -/
def Field.check (r : Field) : Except StateError Nat := register? r.name r.bits r.value

/-- A field is accepted if it has a value in range. -/
theorem check_eq_ok_iff {r : Field} {n : Nat} :
    r.check = .ok n ↔ r.value = some n ∧ n < 1 <<< r.bits := by
  obtain ⟨name, bits, value⟩ := r
  unfold Field.check register?
  cases value with
  | none => simp
  | some value =>
    by_cases h : 1 <<< bits ≤ value
    · simp only [if_pos h]
      simp
      omega
    · simp only [if_neg h]
      simp
      omega

/-- A field is refused for its fault. -/
theorem check_eq_error_iff {r : Field} {e : StateError} :
    r.check = .error e ↔ FieldFault r e := by
  obtain ⟨name, bits, value⟩ := r
  unfold Field.check register?
  constructor
  · intro h
    cases value with
    | none =>
      cases h
      exact .missing name bits
    | some value =>
      dsimp only at h
      split at h
      · rename_i hlarge
        cases h
        exact .tooLarge name hlarge
      · cases h
  · intro h
    cases h with
    | missing => rfl
    | tooLarge _ hlarge => simp only [if_pos hlarge]

end Checks

section Sequences

variable {α β : Type} {f : α → Except StateError β}

/-- One check after another succeeds if both do. -/
theorem bind_eq_ok_iff {x : Except StateError α} {b : β} :
    (x >>= f) = .ok b ↔ ∃ a, x = .ok a ∧ f a = .ok b := by
  cases x <;> simp [bind, Except.bind]

/-- One check after another fails as the first does, or as the second does after the first has
succeeded. -/
theorem bind_eq_error_iff {x : Except StateError α} {e : StateError} :
    (x >>= f) = .error e ↔ x = .error e ∨ ∃ a, x = .ok a ∧ f a = .error e := by
  cases x <;> simp [bind, Except.bind]

/-- What is only given succeeds with what is given. -/
theorem pure_eq_ok_iff {a b : α} : (pure a : Except StateError α) = .ok b ↔ a = b := by
  simp [pure, Except.pure]

/-- What is only given does not fail. -/
theorem pure_ne_error {a : α} {e : StateError} : (pure a : Except StateError α) ≠ .error e := nofun

/-- Checks that are made one after another succeed if each of them does. -/
theorem mapM_eq_ok_iff {xs : List α} {ys : List β} :
    xs.mapM f = .ok ys ↔ List.Forall₂ (fun x y => f x = .ok y) xs ys := by
  induction xs generalizing ys with
  | nil => rw [List.mapM_nil, pure_eq_ok_iff, List.forall₂_nil_left_iff, eq_comm]
  | cons x xs ih =>
    simp only [List.mapM_cons, bind_eq_ok_iff, pure_eq_ok_iff, List.forall₂_cons_left_iff, ih]
    constructor
    · rintro ⟨y, hy, ys', hys', rfl⟩
      exact ⟨y, ys', hy, hys', rfl⟩
    · rintro ⟨y, ys', hy, hys', rfl⟩
      exact ⟨y, hy, ys', hys', rfl⟩

/-- Checks that are made one after another end with the first one that fails. -/
theorem mapM_eq_error_iff {xs : List α} {e : StateError} :
    xs.mapM f = .error e ↔ ∃ before x after, xs = before ++ x :: after ∧
      (∀ y ∈ before, ∃ z, f y = .ok z) ∧ f x = .error e := by
  induction xs with
  | nil => simp [pure_ne_error]
  | cons x xs ih =>
    simp only [List.mapM_cons, bind_eq_error_iff, pure_ne_error, and_false, exists_false, or_false,
      ih]
    constructor
    · rintro (hx | ⟨y, hy, before, x', after, rfl, hbefore, hx'⟩)
      · exact ⟨[], x, xs, rfl, by simp, hx⟩
      · refine ⟨x :: before, x', after, rfl, ?_, hx'⟩
        rw [List.forall_mem_cons]
        exact ⟨⟨y, hy⟩, hbefore⟩
    · rintro ⟨before, x', after, hsplit, hbefore, hx'⟩
      cases before with
      | nil =>
        cases hsplit
        exact .inl hx'
      | cons y before =>
        cases hsplit
        obtain ⟨⟨z, hz⟩, hbefore⟩ := List.forall_mem_cons.mp hbefore
        exact .inr ⟨z, hz, before, x', after, rfl, hbefore, hx'⟩

/-- All are accepted if each is. -/
theorem exists_mapM_eq_ok_iff {xs : List α} :
    (∃ ys, xs.mapM f = .ok ys) ↔ ∀ x ∈ xs, ∃ y, f x = .ok y := by
  induction xs with
  | nil => simp [pure_eq_ok_iff]
  | cons x xs ih =>
    rw [List.forall_mem_cons, ← ih]
    simp only [List.mapM_cons, bind_eq_ok_iff, pure_eq_ok_iff]
    constructor
    · rintro ⟨_, y, hy, ys, hys, rfl⟩
      exact ⟨⟨y, hy⟩, ys, hys⟩
    · rintro ⟨⟨y, hy⟩, ys, hys⟩
      exact ⟨_, y, hy, ys, hys, rfl⟩

end Sequences

/-- The entries of a raw state as they are checked. -/
def checkedEntries (raw : RawState) : Except StateError (List (UInt16 × UInt8)) :=
  raw.ram.mapM fun entry => entry? entry.1 entry.2

/-- A raw state is accepted if its entries and its fields are, and then it describes them. -/
theorem validate_eq_ok_iff {raw : RawState} {state : Snapshot} :
    raw.validate = .ok state ↔ ∃ entries pc a x y s p,
      raw.checkedEntries = .ok entries ∧
      raw.registers.mapM Field.check = .ok [pc, a, x, y, s, p] ∧
      state = ⟨.ofNat pc, .ofNat a, .ofNat x, .ofNat y, .ofNat s, .ofNat p,
        .sparse (.ofList entries)⟩ := by
  unfold validate checkedEntries
  simp only [bind_eq_ok_iff, pure_eq_ok_iff, mapM_eq_ok_iff, registers, List.forall₂_cons,
    List.Forall₂.nil, Field.check, and_true]
  constructor
  · rintro ⟨entries, hentries, pc, hpc, a, ha, x, hx, y, hy, s, hs, p, hp, rfl⟩
    exact ⟨entries, pc, a, x, y, s, p, hentries, ⟨hpc, ha, hx, hy, hs, hp⟩, rfl⟩
  · rintro ⟨entries, pc, a, x, y, s, p, hentries, ⟨hpc, ha, hx, hy, hs, hp⟩, rfl⟩
    exact ⟨entries, hentries, pc, hpc, a, ha, x, hx, y, hy, s, hs, p, hp, rfl⟩

/-- A raw state is refused for its entries, or for its fields if all entries are accepted. -/
theorem validate_eq_error_iff {raw : RawState} {e : StateError} :
    raw.validate = .error e ↔ raw.checkedEntries = .error e ∨
      (∃ entries, raw.checkedEntries = .ok entries) ∧
        raw.registers.mapM Field.check = .error e := by
  unfold validate registers
  simp only [bind_eq_error_iff, pure_ne_error, List.mapM_cons, List.mapM_nil, Field.check,
    and_false, exists_false, or_false]
  rw [exists_and_right]
  rfl

/-- The entries are accepted as they are, if all of them fit. -/
theorem checkedEntries_eq_ok_iff {raw : RawState} {entries : List (UInt16 × UInt8)} :
    raw.checkedEntries = .ok entries ↔ (∀ entry ∈ raw.ram, EntryFits entry) ∧
      entries = raw.ram.map fun entry => (.ofNat entry.1, .ofNat entry.2) := by
  have hmap : List.Forall₂ (fun entry e => e = (UInt16.ofNat entry.1, UInt8.ofNat entry.2))
      raw.ram entries ↔ entries = raw.ram.map fun entry => (.ofNat entry.1, .ofNat entry.2) := by
    rw [eq_comm, ← List.forall₂_eq_eq_eq, List.forall₂_map_left_iff]
    simp only [eq_comm]
  unfold checkedEntries
  simp only [mapM_eq_ok_iff, entry?_eq_ok_iff, List.forall₂_and_left, hmap]

/-- A state is rejected for what is wrong with it in the first place. -/
theorem validate_eq_error_iff_firstFault {raw : RawState} {e : StateError} :
    raw.validate = .error e ↔ raw.FirstFault e := by
  have hentries : (∃ entries, raw.checkedEntries = .ok entries) ↔
      ∀ entry ∈ raw.ram, EntryFits entry := by
    simp only [checkedEntries_eq_ok_iff, exists_and_left, exists_eq, and_true]
  have hentry (entry : Nat × Nat) :
      (∃ e, entry? entry.1 entry.2 = .ok e) ↔ EntryFits entry := by
    simp only [entry?_eq_ok_iff, exists_and_left, exists_eq, and_true]
  have hfits (r : Field) : (∃ n, r.check = .ok n) ↔ r.Fits := by
    simp only [check_eq_ok_iff, Field.Fits]
  rw [validate_eq_error_iff, hentries, checkedEntries, mapM_eq_error_iff, mapM_eq_error_iff]
  simp only [hentry, entry?_eq_error_iff, hfits, check_eq_error_iff]
  constructor
  · rintro (⟨before, entry, after, hram, hbefore, hfault⟩ |
      ⟨hram, before, r, after, hregisters, hbefore, hfault⟩)
    · exact .entry hram hbefore hfault
    · exact .register hram hregisters hbefore hfault
  · intro h
    cases h with
    | entry hram hbefore hfault => exact .inl ⟨_, _, _, hram, hbefore, hfault⟩
    | register hram hregisters hbefore hfault =>
      exact .inr ⟨hram, _, _, _, hregisters, hbefore, hfault⟩

/-- A state is accepted exactly if it is valid. -/
theorem exists_validate_iff {raw : RawState} :
    (∃ state, raw.validate = .ok state) ↔ raw.Valid := by
  constructor
  · rintro ⟨state, h⟩
    obtain ⟨entries, pc, a, x, y, s, p, hentries, hregisters, -⟩ := validate_eq_ok_iff.mp h
    refine ⟨(checkedEntries_eq_ok_iff.mp hentries).1, ?_⟩
    intro r hr
    obtain ⟨n, hn⟩ := exists_mapM_eq_ok_iff.mp ⟨_, hregisters⟩ r hr
    exact ⟨n, check_eq_ok_iff.mp hn⟩
  · intro h
    have hchecks : ∀ r ∈ raw.registers, ∃ n, r.check = .ok n := by
      intro r hr
      obtain ⟨n, hn⟩ := h.registers r hr
      exact ⟨n, check_eq_ok_iff.mpr hn⟩
    obtain ⟨values, hvalues⟩ := exists_mapM_eq_ok_iff.mpr hchecks
    -- six checks give six values
    have hlength : 6 = values.length := (mapM_eq_ok_iff.mp hvalues).length_eq
    obtain ⟨pc, a, x, y, s, p, rfl⟩ : ∃ pc a x y s p, values = [pc, a, x, y, s, p] := by
      rcases values with _ | ⟨pc, _ | ⟨a, _ | ⟨x, _ | ⟨y, _ | ⟨s, _ | ⟨p, _ | ⟨_, _⟩⟩⟩⟩⟩⟩⟩ <;>
        simp at hlength ⊢
    exact ⟨_, validate_eq_ok_iff.mpr ⟨_, pc, a, x, y, s, p,
      checkedEntries_eq_ok_iff.mpr ⟨h.ram, rfl⟩, hvalues, rfl⟩⟩

/-- Of entries that fit, the bytes for an address are found before and after they are cut to size. -/
theorem listed?_of_fits {raw : RawState} (hram : ∀ entry ∈ raw.ram, EntryFits entry)
    (address : UInt16) :
    raw.listed? address = ((Overrides.ofList (raw.ram.map fun entry =>
      (.ofNat entry.1, .ofNat entry.2))).get? address).map UInt8.toNat := by
  -- an address that fits is the same address after it is cut to size
  have hfilter : raw.ram.filter (fun entry => UInt16.ofNat entry.1 = address) =
      raw.ram.filter fun entry => entry.1 = address.toNat := by
    refine List.filter_congr fun entry hentry => ?_
    have haddress := (hram entry hentry).1
    rw [decide_eq_decide, ← UInt16.toNat_inj, UInt16.toNat_ofNat_of_lt' haddress]
  rw [Overrides.get?_ofList, List.filter_map, List.getLast?_map, Option.map_map, Option.map_map,
    listed?]
  change _ = Option.map _ (raw.ram.filter fun entry => UInt16.ofNat entry.1 = address).getLast?
  rw [hfilter]
  refine Option.map_congr fun entry hentry => ?_
  have hvalue := (hram entry (List.mem_of_mem_filter (List.mem_of_getLast? hentry))).2
  exact (UInt8.toNat_ofNat_of_lt' hvalue).symm

/-- What is accepted is described by the raw state. -/
theorem describes_of_validate {raw : RawState} {state : Snapshot} (h : raw.validate = .ok state) :
    raw.Describes state := by
  obtain ⟨entries, pc, a, x, y, s, p, hentries, hregisters, rfl⟩ := validate_eq_ok_iff.mp h
  obtain ⟨hram, rfl⟩ := checkedEntries_eq_ok_iff.mp hentries
  have hchecks := mapM_eq_ok_iff.mp hregisters
  simp only [registers, List.forall₂_cons, check_eq_ok_iff] at hchecks
  obtain ⟨⟨hpc, hpcFits⟩, ⟨ha, haFits⟩, ⟨hx, hxFits⟩, ⟨hy, hyFits⟩, ⟨hs, hsFits⟩, ⟨hp, hpFits⟩, -⟩ :=
    hchecks
  have hbyte {n : Nat} (hn : n < 1 <<< 8) : n = (UInt8.ofNat n).toNat :=
    (UInt8.toNat_ofNat_of_lt' hn).symm
  constructor
  · rw [hpc]
    exact congrArg some (UInt16.toNat_ofNat_of_lt' hpcFits).symm
  · exact ha.trans (congrArg some (hbyte haFits))
  · exact hx.trans (congrArg some (hbyte hxFits))
  · exact hy.trans (congrArg some (hbyte hyFits))
  · exact hs.trans (congrArg some (hbyte hsFits))
  · exact hp.trans (congrArg some (hbyte hpFits))
  · exact listed?_of_fits hram

end RawState

namespace Cpu

variable {c : Cpu} {raw : RawState}

/-- A raw state that is accepted is applied. -/
theorem importRaw_of_ok {state : Snapshot} (h : raw.validate = .ok state) :
    c.importRaw raw = (.ok (), c.apply state) := by
  unfold importRaw
  rw [h]

/-- A raw state that is refused leaves the processor alone. -/
theorem importRaw_of_error {e : StateError} (h : raw.validate = .error e) :
    c.importRaw raw = (.error e, c) := by
  unfold importRaw
  rw [h]

/-- A raw state is refused for its first fault. -/
theorem importRaw_eq_error_iff {e : StateError} :
    (c.importRaw raw).1 = .error e ↔ raw.FirstFault e := by
  rw [← RawState.validate_eq_error_iff_firstFault]
  cases h : raw.validate with
  | ok state => simp [importRaw_of_ok h]
  | error e' => simp [importRaw_of_error h]

/-- A raw state is accepted exactly if it is valid. -/
theorem importRaw_eq_ok_iff : (c.importRaw raw).1 = .ok () ↔ raw.Valid := by
  rw [← RawState.exists_validate_iff]
  cases h : raw.validate with
  | ok state => simp [importRaw_of_ok h]
  | error e => simp [importRaw_of_error h]

/-- To take over a raw state replaces a processor completely or not at all. It succeeds exactly if
the state is valid, and otherwise it tells what is wrong with the state in the first place and leaves
the processor as it is. Afterwards the processor has the registers of the state, with the flags as
they are given, its memory holds the byte that is listed last for an address, and zero where
none is, and it has not executed anything: of what it was before only the dispatch is left. -/
theorem importRaw_replaces (c : Cpu) (raw : RawState) :
    ((c.importRaw raw).1 = .ok () ↔ raw.Valid) ∧
    (∀ e, (c.importRaw raw).1 = .error e ↔ raw.FirstFault e) ∧
    (∀ e, (c.importRaw raw).1 = .error e → (c.importRaw raw).2 = c) ∧
    ((c.importRaw raw).1 = .ok () →
      let c' := (c.importRaw raw).2
      raw.pc = some c'.pc.toNat ∧ raw.a = some c'.a.toNat ∧ raw.x = some c'.x.toNat ∧
        raw.y = some c'.y.toNat ∧ raw.s = some c'.s.toNat ∧
        (∃ p : UInt8, raw.p = some p.toNat ∧ c'.status.pack = p &&& modeledMask) ∧
        (∀ address, (c'.memory.read address).toNat = (raw.listed? address).getD 0) ∧
        c'.halted = false ∧ c'.totalCycles = 0 ∧ c'.last = none ∧ c'.dispatch = c.dispatch) := by
  refine ⟨importRaw_eq_ok_iff, fun e => importRaw_eq_error_iff, ?_, ?_⟩
  · intro e he
    rw [importRaw_eq_error_iff, ← RawState.validate_eq_error_iff_firstFault] at he
    rw [importRaw_of_error he]
  · intro hok
    obtain ⟨state, hstate⟩ := RawState.exists_validate_iff.mpr (importRaw_eq_ok_iff.mp hok)
    have hdescribes := RawState.describes_of_validate hstate
    rw [importRaw_of_ok hstate]
    refine ⟨hdescribes.pc, hdescribes.a, hdescribes.x, hdescribes.y, hdescribes.s,
      ⟨state.p, hdescribes.p, StatusFlags.pack_unpack state.p⟩, ?_, rfl, rfl, rfl, rfl⟩
    intro address
    have hread : (c.apply state).memory.read address = state.memory.get address :=
      state.memory.read_toMemory address
    rw [hread, MemoryView.get_eq, hdescribes.listed]
    cases state.memory.listed? address <;> rfl

/-- A processor whose program has ended, with traces of it everywhere. -/
def worn : Cpu where
  a := 0x80
  pc := 0x0601
  status := { negative := true }
  memory := Memory.zero.write 0x0005 0x09
  halted := true
  last := some ⟨.single 0x00 .brk .implied 7, 0x0600, 0⟩
  totalCycles := 7

/-- A raw state with two bytes for one address, in which the accumulator is zero and Zero is not
set. -/
def replacement : RawState where
  pc := some 0x0200
  s := some 0xFD
  a := some 0x00
  x := some 0x01
  y := some 0x02
  p := some 0x21
  ram := [(0x0007, 0x01), (0xFFFF, 0x02), (0x0007, 0x03)]

/-- All of it is in range. -/
theorem valid_replacement : replacement.Valid where
  ram := by simp [replacement, RawState.EntryFits]
  registers := by simp [replacement, RawState.registers, RawState.Field.Fits]

/-- Nothing of the old memory is left, the later of the two bytes counts, and the processor can go
on. -/
theorem importRaw_replaces_worn :
    (worn.importRaw replacement).1 = .ok () ∧
      ((worn.importRaw replacement).2.memory.read 0x0005).toNat = 0 ∧
      ((worn.importRaw replacement).2.memory.read 0x0007).toNat = 3 ∧
      (worn.importRaw replacement).2.halted = false := by
  obtain ⟨hvalid, -, -, htaken⟩ := importRaw_replaces worn replacement
  have hok := hvalid.mpr valid_replacement
  obtain ⟨-, -, -, -, -, -, hmemory, hhalted, -⟩ := htaken hok
  exact ⟨hok, hmemory 0x0005, hmemory 0x0007, hhalted⟩

/-- Of several faults the first one is reported, and memory comes before the registers. -/
example : (worn.importRaw { replacement with pc := none, ram := [(7, 1), (7, 256), (65536, 0)] }).1 =
    .error (.valueOutOfRange "ram[0x0007]" 256 8) := by
  decide +kernel

end Cpu

end Core65C02
