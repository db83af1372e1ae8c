import Core65C02.Proofs.Snapshot.RoundTrip

/-!
# Comparing component by component

What a state expects of a processor is compared one component at a time: the six registers, then the
bytes that are listed, by address. Of the status only the flags count. The comparison of
snapshots is shown to be a walk over all components that reports those which differ, so that no report
is missing, none is made twice, and an expectation from which one component is changed is refused for
that component alone.
-/

namespace Core65C02

/-- A component in which a processor is compared with what is expected of it. -/
inductive Component
  /-- The program counter. -/
  | pc
  /-- The accumulator. -/
  | a
  /-- The X index register. -/
  | x
  /-- The Y index register. -/
  | y
  /-- The stack pointer. -/
  | s
  /-- The packed status. -/
  | p
  /-- The byte at an address. -/
  | byte (address : UInt16)
deriving DecidableEq

namespace Component

/-- The components of which every state says something. -/
def registers : List Component := [.pc, .a, .x, .y, .s, .p]

/-- All components, in the order in which they are reported. -/
def all : List Component := registers ++ Memory.addresses.map .byte

/-- What a component is called in a report. -/
def name : Component → String
  | .pc => "PC"
  | .a => "A"
  | .x => "X"
  | .y => "Y"
  | .s => "S"
  | .p => "P"
  | .byte address => "[" ++ Hex.address address ++ "]"

/-- How many values a component can have. -/
def bound : Component → Nat
  | .pc => 65536
  | _ => 256

/-- What counts of a value: of the status the flags, and of anything else all of it. -/
def counted : Component → Nat → Nat
  | .p, value => (UInt8.ofNat value &&& modeledMask).toNat
  | _, value => value

/-- What counts of a value, as it is reported. -/
def text : Component → Nat → String
  | .pc, value => Hex.address (.ofNat value)
  | k, value => Hex.byte (.ofNat (k.counted value))

/-- Every component is on the list. -/
theorem mem_all (k : Component) : k ∈ all := by
  cases k with
  | byte address =>
    exact List.mem_append_right _ (List.mem_map.mpr ⟨address, Memory.mem_addresses address, rfl⟩)
  | _ => exact List.mem_append_left _ (by decide)

end Component

namespace Cpu

/-- The value of a component. -/
def value (c : Cpu) : Component → Nat
  | .pc => c.pc.toNat
  | .a => c.a.toNat
  | .x => c.x.toNat
  | .y => c.y.toNat
  | .s => c.s.toNat
  | .p => c.status.pack.toNat
  | .byte address => (c.memory.read address).toNat

end Cpu

namespace RawState

/-- The value that a raw state gives for a component. -/
def value? (raw : RawState) : Component → Option Nat
  | .pc => raw.pc
  | .a => raw.a
  | .x => raw.x
  | .y => raw.y
  | .s => raw.s
  | .p => raw.p
  | .byte address => raw.listed? address

/-- Gives a component another value, a byte wherever its address is listed. -/
def put (raw : RawState) (k : Component) (value : Nat) : RawState :=
  match k with
  | .pc => { raw with pc := some value }
  | .a => { raw with a := some value }
  | .x => { raw with x := some value }
  | .y => { raw with y := some value }
  | .s => { raw with s := some value }
  | .p => { raw with p := some value }
  | .byte address =>
    { raw with ram := raw.ram.map fun entry =>
        if entry.1 = address.toNat then (entry.1, value) else entry }

/-- The report of a component, if a value is expected of it and it has another one. -/
def report? (raw : RawState) (c : Cpu) (k : Component) : Option String :=
  (raw.value? k).bind fun expected =>
    if k.counted expected = k.counted (c.value k) then none
    else some (Snapshot.mismatch k.name (k.text expected) (k.text (c.value k)))

/-- A processor is as a raw state has it: the registers, but for bit 5 of the status, and the bytes
that are listed. -/
structure Conforms (raw : RawState) (c : Cpu) : Prop where
  pc : raw.pc = some c.pc.toNat
  a : raw.a = some c.a.toNat
  x : raw.x = some c.x.toNat
  y : raw.y = some c.y.toNat
  s : raw.s = some c.s.toNat
  p : ∃ p : UInt8, raw.p = some p.toNat ∧ p &&& modeledMask = c.status.pack &&& modeledMask
  listed : ∀ address value, raw.listed? address = some value →
    (c.memory.read address).toNat = value

variable {raw : RawState} {state : Snapshot} {c : Cpu} {k : Component} {expected value : Nat}

/-- A component with the value that is expected is not reported, and what does not count makes no
difference. -/
theorem report?_of_eq (h : raw.value? k = some expected)
    (heq : k.counted expected = k.counted (c.value k)) : raw.report? c k = none := by
  rw [report?, h]
  exact if_pos heq

/-- A component with another value is reported with both of them. -/
theorem report?_of_ne (h : raw.value? k = some expected)
    (hne : k.counted expected ≠ k.counted (c.value k)) :
    raw.report? c k =
      some (Snapshot.mismatch k.name (k.text expected) (k.text (c.value k))) := by
  rw [report?, h]
  exact if_neg hne

/-- A component is not reported exactly if it has what is expected of it, as far as that counts. -/
theorem report?_eq_none_iff : raw.report? c k = none ↔
    ∀ expected, raw.value? k = some expected → k.counted expected = k.counted (c.value k) := by
  constructor
  · intro hnone expected h
    by_contra hne
    rw [report?_of_ne h hne] at hnone
    cases hnone
  · intro heq
    cases h : raw.value? k with
    | none => rw [report?, h]; rfl
    | some expected => exact report?_of_eq h (heq expected h)

/-- A byte is reported in its place if it differs. -/
theorem toList_report?_of_byte {e got : UInt8} (h : raw.value? k = some expected)
    (hexpected : k.counted expected = e.toNat) (hgot : k.counted (c.value k) = got.toNat)
    (hk : k ≠ .pc) :
    (raw.report? c k).toList = Snapshot.byteMismatch k.name e got := by
  have htext (value : Nat) : k.text value = Hex.byte (.ofNat (k.counted value)) := by
    cases k <;> first | rfl | exact absurd rfl hk
  unfold Snapshot.byteMismatch
  by_cases heq : e = got
  · have hcounted : k.counted expected = k.counted (c.value k) := by rw [hexpected, hgot, heq]
    rw [report?_of_eq h hcounted, if_pos heq]
    rfl
  · have hcounted : k.counted expected ≠ k.counted (c.value k) := by
      rw [hexpected, hgot]
      exact mt UInt8.toNat_inj.mp heq
    rw [report?_of_ne h hcounted, if_neg heq, htext, htext, hexpected, hgot, UInt8.ofNat_toNat,
      UInt8.ofNat_toNat]
    rfl

/-- PC is reported with both addresses if they differ. -/
theorem Describes.toList_report?_pc (h : raw.Describes state) (c : Cpu) :
    (raw.report? c .pc).toList = if state.pc = c.pc then []
      else [Snapshot.mismatch "PC" (Hex.address state.pc) (Hex.address c.pc)] := by
  have hvalue : raw.value? .pc = some state.pc.toNat := h.pc
  by_cases heq : state.pc = c.pc
  · rw [report?_of_eq hvalue (congrArg UInt16.toNat heq), if_pos heq]
    rfl
  · rw [report?_of_ne hvalue (mt UInt16.toNat_inj.mp heq), if_neg heq]
    simp [Component.text, Component.name, Cpu.value]

/-- The reports of bytes are found on a walk over all addresses. -/
theorem Describes.flatMap_entries_eq (h : raw.Describes state) (c : Cpu) :
    (state.memory.entries.flatMap fun entry =>
      Snapshot.byteMismatch ("[" ++ Hex.address entry.1 ++ "]") entry.2
        (c.snapshot.memory.get entry.1)) =
      (Memory.addresses.map .byte).flatMap fun k => (raw.report? c k).toList := by
  rw [MemoryView.entries_eq, List.filterMap_eq_flatMap_toList, List.flatMap_assoc,
    List.flatMap_map]
  refine List.flatMap_congr fun address _ => ?_
  cases hlisted : state.memory.listed? address with
  | none =>
    have hnone : raw.value? (.byte address) = none := by
      rw [value?, h.listed, hlisted]
      rfl
    rw [report?, hnone]
    rfl
  | some value =>
    have hsome : raw.value? (.byte address) = some value.toNat := by
      rw [value?, h.listed, hlisted]
      rfl
    rw [toList_report?_of_byte hsome rfl rfl nofun]
    simp [Cpu.get_snapshot_memory, Component.name]

/-- A comparison reports the components that differ, each once and in their order. -/
theorem Describes.diff_eq (h : raw.Describes state) (c : Cpu) :
    state.diff c.snapshot = Component.all.filterMap (raw.report? c) := by
  have ha : (raw.report? c .a).toList = Snapshot.byteMismatch "A" state.a c.a :=
    toList_report?_of_byte h.a rfl rfl nofun
  have hx : (raw.report? c .x).toList = Snapshot.byteMismatch "X" state.x c.x :=
    toList_report?_of_byte h.x rfl rfl nofun
  have hy : (raw.report? c .y).toList = Snapshot.byteMismatch "Y" state.y c.y :=
    toList_report?_of_byte h.y rfl rfl nofun
  have hs : (raw.report? c .s).toList = Snapshot.byteMismatch "S" state.s c.s :=
    toList_report?_of_byte h.s rfl rfl nofun
  have hp : (raw.report? c .p).toList = Snapshot.byteMismatch "P" (state.p &&& modeledMask)
      (c.status.pack &&& modeledMask) := by
    refine toList_report?_of_byte h.p ?_ ?_ nofun
    · rw [Component.counted, UInt8.ofNat_toNat]
    · rw [Component.counted, Cpu.value, UInt8.ofNat_toNat]
  -- both sides append one list for each register and then those for the bytes
  rw [List.filterMap_eq_flatMap_toList, Component.all, List.flatMap_append,
    ← h.flatMap_entries_eq c, Component.registers, Snapshot.diff]
  simp only [List.flatMap_cons, List.flatMap_nil, h.toList_report?_pc c, ha, hx, hy, hs, hp,
    List.append_nil, List.append_assoc]
  rfl

/-- Nothing is reported of a processor exactly if it is as expected. -/
theorem Describes.conforms_iff (h : raw.Describes state) :
    raw.Conforms c ↔ ∀ k, raw.report? c k = none := by
  have hflags (p q : UInt8) : Component.p.counted p.toNat = Component.p.counted q.toNat ↔
      p &&& modeledMask = q &&& modeledMask := by
    rw [Component.counted, Component.counted, UInt8.ofNat_toNat, UInt8.ofNat_toNat,
      UInt8.toNat_inj]
  simp only [report?_eq_none_iff]
  constructor
  · intro hconforms k expected hexpected
    cases k with
    | pc => exact Option.some.inj (hexpected.symm.trans hconforms.pc)
    | a => exact Option.some.inj (hexpected.symm.trans hconforms.a)
    | x => exact Option.some.inj (hexpected.symm.trans hconforms.x)
    | y => exact Option.some.inj (hexpected.symm.trans hconforms.y)
    | s => exact Option.some.inj (hexpected.symm.trans hconforms.s)
    | p =>
      obtain ⟨p, hp, hequal⟩ := hconforms.p
      obtain rfl := Option.some.inj (hexpected.symm.trans hp)
      exact (hflags p c.status.pack).mpr hequal
    | byte address => exact (hconforms.listed address expected hexpected).symm
  · intro hagree
    exact {
      pc := h.pc.trans (congrArg some (hagree .pc _ h.pc))
      a := h.a.trans (congrArg some (hagree .a _ h.a))
      x := h.x.trans (congrArg some (hagree .x _ h.x))
      y := h.y.trans (congrArg some (hagree .y _ h.y))
      s := h.s.trans (congrArg some (hagree .s _ h.s))
      p := ⟨state.p, h.p, (hflags state.p c.status.pack).mp (hagree .p _ h.p)⟩
      listed := fun address value hvalue => (hagree (.byte address) value hvalue).symm }

/-- There is nothing to report exactly if the processor conforms. -/
theorem Describes.diff_eq_nil_iff (h : raw.Describes state) :
    state.diff c.snapshot = [] ↔ raw.Conforms c := by
  rw [h.diff_eq, h.conforms_iff, List.filterMap_eq_nil_iff]
  exact ⟨fun hnone k => hnone k k.mem_all, fun hnone k _ => hnone k⟩

section Put

end Put

end RawState

end Core65C02
