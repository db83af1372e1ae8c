import Core65C02.Proofs.Snapshot.Import

/-!
# Snapshots as raw states

A snapshot is written as a raw state and read back by validation. Of a full view the zeros are not
written, so a sparse view comes back in its place, but what it says about memory is the same. The main
statement is that nothing is lost but that, and bit 5 of the status where a processor takes the
snapshot over.
-/

namespace Core65C02

namespace Snapshot

/-- What is written of a view ascends. -/
theorem ascending_exchanged (view : MemoryView) :
    (exchanged view).Pairwise fun p q => p.1 < q.1 := by
  cases view with
  | sparse overrides => exact overrides.ascending
  | full bytes => exact (MemoryView.full bytes).ascending_entries.filter _

/-- What is written of a view says the same about memory. -/
theorem get_ofList_exchanged (view : MemoryView) (address : UInt16) :
    (MemoryView.sparse (.ofList (exchanged view))).get address = view.get address := by
  cases view with
  | sparse overrides => rw [exchanged, Overrides.ofList_entries]
  | full bytes =>
    have hlisted (value : UInt8) :
        (Overrides.ofList (exchanged (.full bytes))).get? address = some value ↔
          (MemoryView.full bytes).listed? address = some value ∧ value ≠ 0 := by
      rw [Overrides.get?_eq_some_iff, Overrides.entries_ofList (ascending_exchanged _), exchanged,
        List.mem_filter, MemoryView.mem_entries]
      simp
    rw [MemoryView.get_eq, MemoryView.get_eq, MemoryView.listed?]
    -- a byte that is not written is zero or not listed, and it reads as zero either way
    cases hwritten : (Overrides.ofList (exchanged (.full bytes))).get? address with
    | some value =>
      rw [((hlisted value).mp hwritten).1]
    | none =>
      cases hvalue : (MemoryView.full bytes).listed? address with
      | none => rfl
      | some value =>
        by_contra hne
        have hsome := (hlisted value).mpr ⟨hvalue, fun hzero => hne hzero.symm⟩
        rw [hwritten] at hsome
        cases hsome

/-- The snapshot that is read back. -/
def rewritten (state : Snapshot) : Snapshot :=
  { state with memory := .sparse (.ofList (exchanged state.memory)) }

/-- What is written of a snapshot is accepted, and it is the snapshot that is read back. -/
theorem validate_toRaw (state : Snapshot) : state.toRaw.validate = .ok state.rewritten := by
  refine RawState.validate_eq_ok_iff.mpr ⟨exchanged state.memory, state.pc.toNat, state.a.toNat,
    state.x.toNat, state.y.toNat, state.s.toNat, state.p.toNat, ?_, ?_, ?_⟩
  · refine RawState.checkedEntries_eq_ok_iff.mpr ⟨?_, ?_⟩
    · intro entry hentry
      obtain ⟨e, -, rfl⟩ := List.mem_map.mp hentry
      exact ⟨e.1.toNat_lt, e.2.toNat_lt⟩
    · have hcut : (exchanged state.memory).map
          ((fun entry : Nat × Nat => (UInt16.ofNat entry.1, UInt8.ofNat entry.2)) ∘
            fun e : UInt16 × UInt8 => (e.1.toNat, e.2.toNat)) = exchanged state.memory := by
        refine List.map_id'' (fun e => ?_) _
        simp
      rw [toRaw, List.map_map]
      exact hcut.symm
  · rw [RawState.mapM_eq_ok_iff]
    simp only [RawState.registers, List.forall₂_cons, RawState.check_eq_ok_iff]
    exact ⟨⟨rfl, state.pc.toNat_lt⟩, ⟨rfl, state.a.toNat_lt⟩, ⟨rfl, state.x.toNat_lt⟩,
      ⟨rfl, state.y.toNat_lt⟩, ⟨rfl, state.s.toNat_lt⟩, ⟨rfl, state.p.toNat_lt⟩, .nil⟩
  · simp [rewritten]

/-- A snapshot with a sparse view is read back as it was. -/
theorem rewritten_of_sparse {state : Snapshot} {overrides : Overrides}
    (h : state.memory = .sparse overrides) : state.rewritten = state := by
  unfold rewritten
  rw [h, exchanged, Overrides.ofList_entries, ← h]

end Snapshot

namespace Cpu

/-- The processor of a snapshot is the processor of the snapshot that is read back. -/
theorem ofSnapshot_rewritten (state : Snapshot) : ofSnapshot state.rewritten = ofSnapshot state := by
  have hmemory : state.rewritten.memory.toMemory = state.memory.toMemory := by
    refine Memory.ext_read fun address => ?_
    rw [MemoryView.read_toMemory, MemoryView.read_toMemory]
    exact Snapshot.get_ofList_exchanged state.memory address
  unfold ofSnapshot apply
  rw [hmemory]
  rfl

/-- The full view of a processor says what is in its memory. -/
theorem get_snapshot_memory (c : Cpu) (address : UInt16) :
    c.snapshot.memory.get address = c.memory.read address := by
  rw [← MemoryView.read_toMemory]
  exact congrArg (fun m => m.read address) (MemoryView.toMemory_full c.memory)

/-- The processor of the snapshot of a processor has the same snapshot. -/
theorem snapshot_ofSnapshot_snapshot (c : Cpu) : (ofSnapshot c.snapshot).snapshot = c.snapshot := by
  have hmemory : (ofSnapshot c.snapshot).memory = c.memory := MemoryView.toMemory_full c.memory
  have hstatus : (ofSnapshot c.snapshot).status = c.status := StatusFlags.unpack_pack c.status
  calc (ofSnapshot c.snapshot).snapshot
    _ = ⟨c.pc, c.a, c.x, c.y, c.s, (ofSnapshot c.snapshot).status.pack,
          .full (ofSnapshot c.snapshot).memory.bytes.toArray⟩ := rfl
    _ = c.snapshot := by rw [hmemory, hstatus]; rfl

end Cpu

namespace Snapshot

/-- A snapshot admits the processor that it describes. -/
theorem admits_ofSnapshot (state : Snapshot) :
    state.admits (Cpu.ofSnapshot state).snapshot = true := by
  have hself (name : String) (value : UInt8) : byteMismatch name value value = [] := if_pos rfl
  have hp : (Cpu.ofSnapshot state).snapshot.p &&& modeledMask = state.p &&& modeledMask := by
    have hpack : (Cpu.ofSnapshot state).snapshot.p = state.p &&& modeledMask :=
      StatusFlags.pack_unpack state.p
    rw [hpack, UInt8.and_assoc, UInt8.and_self]
  have hbytes : (state.memory.entries.flatMap fun entry =>
      byteMismatch ("[" ++ Hex.address entry.1 ++ "]") entry.2
        ((Cpu.ofSnapshot state).snapshot.memory.get entry.1)) = [] := by
    rw [List.flatMap_eq_nil_iff]
    rintro ⟨address, value⟩ hentry
    have hread : (Cpu.ofSnapshot state).memory.read address = state.memory.get address :=
      state.memory.read_toMemory address
    rw [Cpu.get_snapshot_memory, hread, MemoryView.get_eq, MemoryView.mem_entries.mp hentry]
    exact hself _ value
  have hregisters : (if state.pc = (Cpu.ofSnapshot state).snapshot.pc then []
      else [mismatch "PC" (Hex.address state.pc)
        (Hex.address (Cpu.ofSnapshot state).snapshot.pc)]) = [] := if_pos rfl
  rw [admits, List.isEmpty_iff]
  unfold diff
  rw [hregisters, hp, hself "P", hbytes]
  change [] ++ byteMismatch "A" state.a state.a ++ byteMismatch "X" state.x state.x ++
    byteMismatch "Y" state.y state.y ++ byteMismatch "S" state.s state.s ++ [] ++ [] = []
  rw [hself, hself, hself, hself]
  rfl

/-- A snapshot that is written as a raw state and read back has the same registers and the same byte
at every address. A sparse one comes back as it is; a full one, of whatever length, comes back as a
sparse one from which the same processor is made. A snapshot admits the processor that is made of it,
and the snapshot of a processor survives the way through a raw state and another processor. -/
theorem toRaw_roundTrips :
    (∀ state : Snapshot, ∃ state', state.toRaw.validate = .ok state' ∧
      state'.pc = state.pc ∧ state'.a = state.a ∧ state'.x = state.x ∧ state'.y = state.y ∧
      state'.s = state.s ∧ state'.p = state.p ∧
      (∀ address, state'.memory.get address = state.memory.get address) ∧
      (∀ overrides, state.memory = .sparse overrides → state' = state) ∧
      (Cpu.ofSnapshot state').snapshot = (Cpu.ofSnapshot state).snapshot ∧
      state.admits (Cpu.ofSnapshot state).snapshot = true) ∧
    ∀ c : Cpu, ∃ state', c.snapshot.toRaw.validate = .ok state' ∧
      (Cpu.ofSnapshot state').snapshot = c.snapshot := by
  constructor
  · intro state
    have hsnapshot : (Cpu.ofSnapshot state.rewritten).snapshot = (Cpu.ofSnapshot state).snapshot := by
      rw [Cpu.ofSnapshot_rewritten]
    exact ⟨state.rewritten, validate_toRaw state, rfl, rfl, rfl, rfl, rfl, rfl,
      get_ofList_exchanged state.memory, fun _ => rewritten_of_sparse, hsnapshot,
      admits_ofSnapshot state⟩
  · intro c
    refine ⟨c.snapshot.rewritten, validate_toRaw c.snapshot, ?_⟩
    rw [Cpu.ofSnapshot_rewritten, Cpu.snapshot_ofSnapshot_snapshot]

/-- A zero that is listed explicitly stays listed, and a full view that ends early keeps its bytes. -/
theorem toRaw_roundTrips_zero :
    let listed : Snapshot := ⟨0x0600, 1, 2, 3, 0xFD, 0x20, .sparse (Overrides.empty.insert 7 0)⟩
    let short : Snapshot := ⟨0x0600, 1, 2, 3, 0xFD, 0xFF, .full #[0, 9]⟩
    listed.toRaw.validate = .ok listed ∧
      ∃ state, short.toRaw.validate = .ok state ∧ state.p = 0xFF ∧ state.memory.get 1 = 9 ∧
        state.memory.get 2 = 0 := by
  intro listed short
  obtain ⟨listed', hlisted, -, -, -, -, -, -, -, hsparse, -⟩ := toRaw_roundTrips.1 listed
  obtain ⟨state, hstate, -, -, -, -, -, hp, hget, -⟩ := toRaw_roundTrips.1 short
  obtain rfl : listed' = listed := hsparse _ rfl
  exact ⟨hlisted, state, hstate, hp, hget 1, hget 2⟩

end Snapshot

end Core65C02
