import Core65C02.Encoding.Base64
import Core65C02.Encoding.RunLength
import Core65C02.Encoding.Sha256
import Core65C02.Snapshot.Basic
import Core65C02.Time.Timestamp

/-!
# Checkpoints

A checkpoint keeps a whole machine: registers, counters, and the memory image in a compact text
with a digest of its bytes. Restoring checks size and digest of the image first, so a damaged
checkpoint never becomes a processor. The last instruction is not kept.
-/

namespace Core65C02

/-- Why a checkpoint was taken. -/
inductive CheckpointReason
  | manual | breakpoint | finished
deriving DecidableEq, Inhabited

namespace CheckpointReason

/-- The name of a reason. -/
def name : CheckpointReason → String
  | manual => "Manual"
  | breakpoint => "Breakpoint"
  | finished => "Finished"

/-- The reason with a given name. -/
def ofName? (text : String) : Option CheckpointReason :=
  [manual, breakpoint, finished].find? fun reason => reason.name == text

end CheckpointReason

/-- A machine at rest. -/
structure Checkpoint where
  /-- What tells the checkpoint from all others. -/
  id : String
  /-- What its maker calls it. -/
  name : String
  /-- When it was taken. -/
  createdAt : Timestamp
  /-- Why it was taken. -/
  reason : CheckpointReason
  /-- The steps of the run so far. -/
  steps : Nat
  /-- The cycles since the last reset. -/
  cycles : Nat
  /-- Whether the program has ended. -/
  halted : Bool
  /-- The program counter. -/
  pc : UInt16
  /-- The accumulator. -/
  a : UInt8
  /-- The X index register. -/
  x : UInt8
  /-- The Y index register. -/
  y : UInt8
  /-- The stack pointer. -/
  s : UInt8
  /-- The packed status. -/
  p : UInt8
  /-- The memory image, run-length encoded and in base64. -/
  image : String
  /-- The SHA-256 digest of the bytes of the image. -/
  digest : String
deriving DecidableEq, Inhabited

/-- The registers and counters that make a run continue where it was. -/
def Cpu.restoreCounters (c : Cpu) (cycles : Nat) (halted : Bool) : Cpu :=
  { c with totalCycles := cycles, halted }

namespace Checkpoint

/-- The text that stands for a memory image. -/
def encodeImage (bytes : List UInt8) : String := Base64.encode (RunLength.encode bytes)

/-- Takes a checkpoint of a processor after `steps` steps. -/
def capture (c : Cpu) (id name : String) (createdAt : Timestamp) (reason : CheckpointReason)
    (steps : Nat) : Checkpoint where
  id := id
  name := name
  createdAt := createdAt
  reason := reason
  steps := steps
  cycles := c.totalCycles
  halted := c.halted
  pc := c.pc
  a := c.a
  x := c.x
  y := c.y
  s := c.s
  p := c.status.pack
  image := encodeImage c.memory.toList
  digest := Sha256.hexDigest c.memory.toList

/-- The rejection that follows from bytes that are no run-length encoding. -/
def rejection : RunLength.Failure → StateError
  | .endsAfterMarker => .corrupt .endsAfterMarker
  | .endsInRun => .corrupt .endsInRun
  | .tooLong length => .memorySize length

/-- The bytes that the text of an image stands for. -/
def decodeImage (image : String) : Except StateError (Array UInt8) :=
  match Base64.decode? image with
  | none => .error (.corrupt .badText)
  | some bytes =>
    match RunLength.decode Memory.size bytes with
    | .error failure => .error (rejection failure)
    | .ok bytes => .ok bytes

/-- The memory image, if it has the right size and the recorded digest. -/
def memory (c : Checkpoint) : Except StateError (Array UInt8) := do
  let bytes ← decodeImage c.image
  if bytes.size ≠ Memory.size then throw (.memorySize bytes.size)
  if Sha256.hexDigest bytes.toList ≠ c.digest then throw .digestMismatch
  return bytes

/-- The machine that a checkpoint holds. -/
def restore (c : Checkpoint) : Except StateError Cpu := do
  let bytes ← c.memory
  let state : Snapshot :=
    { pc := c.pc, a := c.a, x := c.x, y := c.y, s := c.s, p := c.p, memory := .full bytes }
  return (Cpu.ofSnapshot state).restoreCounters c.cycles c.halted

/-- The number of bytes of the encoded image, zero if its text cannot be decoded. Divided by the
size of memory it is the compression ratio. -/
def encodedLength (c : Checkpoint) : Nat := ((Base64.decode? c.image).map List.length).getD 0

end Checkpoint

end Core65C02
