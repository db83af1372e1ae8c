import Core65C02.Cpu.Basic
import Core65C02.Snapshot.Error
import Core65C02.Snapshot.View

/-!
# Snapshots

The registers and memory of a processor as data. A snapshot can be compared with another, be written
as a raw state without bounds on its numbers, and be read back from one after validation.
-/

namespace Core65C02

/-- The registers of a processor and what is known of its memory. -/
structure Snapshot where
  /-- The program counter. -/
  pc : UInt16
  /-- The accumulator. -/
  a : UInt8
  /-- The X index register. -/
  x : UInt8
  /-- The Y index register. -/
  y : UInt8
  /-- The stack pointer. -/
  s : UInt8
  /-- The packed status. -/
  p : UInt8
  /-- The memory. -/
  memory : MemoryView := .sparse .empty
deriving DecidableEq, Inhabited

namespace Snapshot

/-- Gives an address a byte. -/
def withByte (state : Snapshot) (address : UInt16) (value : UInt8) : Snapshot :=
  { state with memory := state.memory.set address value }

/-- The report of a component that differs. -/
def mismatch (name expected got : String) : String :=
  name ++ ": expected " ++ expected ++ ", got " ++ got

/-- The report of a byte that differs, or nothing. -/
def byteMismatch (name : String) (expected got : UInt8) : List String :=
  if expected = got then [] else [mismatch name (Hex.byte expected) (Hex.byte got)]

/-- The components in which `actual` differs from what is expected: registers first, then bytes in
the order of their addresses. Only the seven flags of P count, and only the bytes that the
expectation lists. -/
def diff (expected actual : Snapshot) : List String :=
  (if expected.pc = actual.pc then []
    else [mismatch "PC" (Hex.address expected.pc) (Hex.address actual.pc)]) ++
  byteMismatch "A" expected.a actual.a ++
  byteMismatch "X" expected.x actual.x ++
  byteMismatch "Y" expected.y actual.y ++
  byteMismatch "S" expected.s actual.s ++
  byteMismatch "P" (expected.p &&& modeledMask) (actual.p &&& modeledMask) ++
  expected.memory.entries.flatMap fun (address, value) =>
    byteMismatch ("[" ++ Hex.address address ++ "]") value (actual.memory.get address)

/-- Whether `actual` is what is expected. -/
def admits (expected actual : Snapshot) : Bool := (expected.diff actual).isEmpty

end Snapshot

/-- A state as it is exchanged: numbers without bounds, any of which may be absent. -/
structure RawState where
  /-- The program counter. -/
  pc : Option Nat := none
  /-- The stack pointer. -/
  s : Option Nat := none
  /-- The accumulator. -/
  a : Option Nat := none
  /-- The X index register. -/
  x : Option Nat := none
  /-- The Y index register. -/
  y : Option Nat := none
  /-- The packed status. -/
  p : Option Nat := none
  /-- Addresses with their bytes. -/
  ram : List (Nat × Nat) := []
deriving DecidableEq, Inhabited

namespace RawState

/-- An address with its byte, if both are in range; the address is looked at first. -/
def entry? (address value : Nat) : Except StateError (UInt16 × UInt8) :=
  if 0xFFFF < address then .error (.addressOutOfRange address)
  else if 0xFF < value then
    .error (.valueOutOfRange ("ram[0x" ++ Hex.address (.ofNat address) ++ "]") value 8)
  else .ok (.ofNat address, .ofNat value)

/-- A register that is given and has at most `bits` bits. -/
def register? (name : String) (bits : Nat) : Option Nat → Except StateError Nat
  | none => .error (.missingField name)
  | some value =>
    if 1 <<< bits ≤ value then .error (.valueOutOfRange name value bits) else .ok value

/-- The snapshot that a raw state stands for. Memory is checked first and in order, then the
registers. -/
def validate (raw : RawState) : Except StateError Snapshot := do
  let entries ← raw.ram.mapM fun (address, value) => entry? address value
  let pc ← register? "pc" 16 raw.pc
  let a ← register? "a" 8 raw.a
  let x ← register? "x" 8 raw.x
  let y ← register? "y" 8 raw.y
  let s ← register? "s" 8 raw.s
  let p ← register? "p" 8 raw.p
  return {
    pc := .ofNat pc, a := .ofNat a, x := .ofNat x, y := .ofNat y, s := .ofNat s, p := .ofNat p
    memory := .sparse (.ofList entries) }

end RawState

namespace Snapshot

/-- The entries of memory that are exchanged: all of a sparse view, and those other than zero of a
full one. -/
def exchanged : MemoryView → List (UInt16 × UInt8)
  | .sparse overrides => overrides.entries
  | .full bytes => (MemoryView.full bytes).entries.filter fun e => e.2 != 0

/-- The raw state of a snapshot. -/
def toRaw (state : Snapshot) : RawState where
  pc := some state.pc.toNat
  s := some state.s.toNat
  a := some state.a.toNat
  x := some state.x.toNat
  y := some state.y.toNat
  p := some state.p.toNat
  ram := (exchanged state.memory).map fun (address, value) => (address.toNat, value.toNat)

end Snapshot

namespace Cpu

/-- Takes over a snapshot: its registers as they are, its bytes on an image of zeros, and counters
as after a reset. The dispatch stays. -/
def apply (c : Cpu) (state : Snapshot) : Cpu :=
  { c.reset state.pc with
    a := state.a, x := state.x, y := state.y, s := state.s, status := .unpack state.p
    memory := state.memory.toMemory }

/-- The processor that a snapshot describes. -/
def ofSnapshot (state : Snapshot) : Cpu := ({} : Cpu).apply state

/-- Takes over a raw state if it is valid. A state that is rejected changes nothing. -/
def importRaw (c : Cpu) (raw : RawState) : Except StateError Unit × Cpu :=
  match raw.validate with
  | .error e => (.error e, c)
  | .ok state => (.ok (), c.apply state)

/-- The registers and the whole memory. -/
def snapshot (c : Cpu) : Snapshot where
  pc := c.pc
  a := c.a
  x := c.x
  y := c.y
  s := c.s
  p := c.status.pack
  memory := .full c.memory.bytes.toArray

end Cpu

end Core65C02
