import Core65C02.Checkpoint.Basic
import Core65C02.Proofs.Encoding.Base64
import Core65C02.Proofs.Encoding.RunLength
import Core65C02.Proofs.Snapshot
import Core65C02.Proofs.Step

/-!
# Checkpoints are transparent

A checkpoint keeps everything of a processor but the record of the last instruction, and that record
decides nothing. So a restored processor continues like the one that was captured, halted or not. In
the other direction, whatever can be restored is captured as it was, though its image may be written
in another way.
-/

namespace Core65C02.Checkpoint

/-- An image is decoded to the bytes from which it was made. -/
theorem decodeImage_encodeImage (m : Memory) :
    decodeImage (encodeImage m.toList) = .ok m.bytes.toArray := by
  have hlength : m.toList.length ≤ Memory.size := Nat.le_of_eq m.length_toList
  simp only [decodeImage, encodeImage, Base64.decode?_encode, RunLength.decode_encode _ hlength]
  rfl

/-- The machine that a checkpoint describes, with a given memory. -/
def machine (k : Checkpoint) (m : Memory) : Cpu where
  a := k.a
  x := k.x
  y := k.y
  pc := k.pc
  s := k.s
  status := .unpack k.p
  memory := m
  halted := k.halted
  totalCycles := k.cycles

/-- A checkpoint gives an image if its own can be decoded, has the right size and has the digest. -/
theorem memory_eq_ok_iff {k : Checkpoint} {bytes : Array UInt8} :
    k.memory = .ok bytes ↔ decodeImage k.image = .ok bytes ∧ bytes.size = Memory.size ∧
      Sha256.hexDigest bytes.toList = k.digest := by
  unfold memory
  cases decodeImage k.image with
  | error e => simp [bind, Except.bind]
  | ok decoded =>
    simp only [bind, Except.bind, ne_eq, ite_not, Except.ok.injEq]
    constructor
    · intro h
      split at h
      · next hsize =>
        split at h
        · next hdigest =>
          cases h
          exact ⟨rfl, hsize, hdigest⟩
        · cases h
      · cases h
    · rintro ⟨rfl, hsize, hdigest⟩
      rw [if_pos hsize, if_pos hdigest]
      rfl

/-- A checkpoint can be restored if its image has the right size and the recorded digest. -/
theorem restore_eq_ok_iff {k : Checkpoint} {c : Cpu} :
    k.restore = .ok c ↔ ∃ m : Memory, decodeImage k.image = .ok m.bytes.toArray ∧
      Sha256.hexDigest m.toList = k.digest ∧ c = k.machine m := by
  have hmachine (m : Memory) : (Cpu.ofSnapshot ⟨k.pc, k.a, k.x, k.y, k.s, k.p,
      .full m.bytes.toArray⟩).restoreCounters k.cycles k.halted = k.machine m := by
    unfold Cpu.ofSnapshot Cpu.apply
    rw [MemoryView.toMemory_full]
    rfl
  unfold restore
  constructor
  · intro h
    cases hbytes : k.memory with
    | error e =>
      rw [hbytes] at h
      cases h
    | ok bytes =>
      rw [hbytes] at h
      obtain ⟨himage, hsize, hdigest⟩ := memory_eq_ok_iff.mp hbytes
      cases h
      exact ⟨⟨⟨bytes, hsize⟩⟩, himage, hdigest, hmachine ⟨⟨bytes, hsize⟩⟩⟩
  · rintro ⟨m, himage, hdigest, rfl⟩
    have hbytes : k.memory = .ok m.bytes.toArray :=
      memory_eq_ok_iff.mpr ⟨himage, Vector.size_toArray m.bytes, hdigest⟩
    rw [hbytes, ← hmachine m]
    rfl

/-- What is restored differs from what was captured in the last instruction only. -/
theorem restore_capture (c : Cpu) (hdispatch : c.dispatch = .standard) (id name : String)
    (createdAt : Timestamp) (reason : CheckpointReason) (steps : Nat) :
    (capture c id name createdAt reason steps).restore = .ok { c with last := none } := by
  refine restore_eq_ok_iff.mpr ⟨c.memory, decodeImage_encodeImage c.memory, rfl, ?_⟩
  unfold machine capture
  rw [StatusFlags.unpack_pack, ← hdispatch]

/-- Checkpoints are transparent. A captured processor with the standard dispatch can be restored,
and however many steps are taken, both processors then differ in the last instruction at most and
the next step has the same result on both. Conversely, what a checkpoint restores is captured as
the checkpoint has it but for bit 5 of the status, with an image that stands for the
same bytes. -/
theorem restore_transparent :
    (∀ (c : Cpu) (id name : String) (createdAt : Timestamp) (reason : CheckpointReason)
        (steps : Nat), c.dispatch = .standard →
      ∃ r, (capture c id name createdAt reason steps).restore = .ok r ∧
        ∀ n, r.after n = { c.after n with last := (r.after n).last } ∧
          (r.after n).step.result = (c.after n).step.result) ∧
    ∀ (k : Checkpoint) (c : Cpu) (id name : String) (createdAt : Timestamp)
        (reason : CheckpointReason) (steps : Nat), k.restore = .ok c →
      let k' := capture c id name createdAt reason steps
      k' = { k with
        id, name, createdAt, reason, steps, p := k.p &&& modeledMask, image := k'.image } ∧
      ∃ bytes, decodeImage k.image = .ok bytes ∧ decodeImage k'.image = .ok bytes := by
  constructor
  · intro c id name createdAt reason steps hdispatch
    refine ⟨_, restore_capture c hdispatch id name createdAt reason steps, fun n => ?_⟩
    have halike : c.Alike { c with last := none } := rfl
    exact ⟨halike.after n, (halike.after n).step.1⟩
  · intro k c id name createdAt reason steps hrestore
    obtain ⟨m, himage, hdigest, rfl⟩ := restore_eq_ok_iff.mp hrestore
    refine ⟨?_, _, himage, decodeImage_encodeImage m⟩
    unfold capture machine
    rw [StatusFlags.pack_unpack, ← hdigest]

/-- A processor that has executed one instruction and is about to execute another. -/
def resting : Cpu where
  x := 7
  pc := 0x0201
  status := { carry := true }
  memory := Memory.zero.write 0x0200 0xE8 |>.write 0x0201 0xCA
  last := some ⟨.single 0xE8 .inx .implied 2, 0x0200, 0⟩
  totalCycles := 2

/-- It can be restored and goes on as it would have. Without a last instruction it can be captured
as well. -/
theorem restore_transparent_resting :
    (∃ r, (capture resting "1" "here" default .manual 1).restore = .ok r ∧
      ∀ n, r.after n = { resting.after n with last := (r.after n).last } ∧
        (r.after n).step.result = (resting.after n).step.result) ∧
    (capture { resting with last := none } "2" "there" default .finished 5).p = 0x01 := by
  have hrestore := restore_capture resting rfl "1" "here" default .manual 1
  have hcapture := (restore_transparent.2 _ _ "2" "there" default .finished 5 hrestore).1
  refine ⟨restore_transparent.1 resting "1" "here" default .manual 1 rfl, ?_⟩
  rw [hcapture]
  rfl

end Core65C02.Checkpoint
