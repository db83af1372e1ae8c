import Core65C02.Main
import Core65C02.Files.Tree
import Core65C02.Forms.Checkpoint
import Core65C02.Forms.Conformance
import Core65C02.Forms.Opcode
import Core65C02.Forms.Settings
import Core65C02.Forms.Snapshot
import Core65C02.Forms.Status
import Core65C02.Memory.Changes
import Core65C02.Opcode.Parse
import Core65C02.Run.Controller
import Core65C02.Settings.Address
import Core65C02.Proofs.Checkpoint
import Core65C02.Proofs.Checkpoint.Acceptance
import Core65C02.Proofs.Cycles
import Core65C02.Proofs.Dispatch
import Core65C02.Proofs.Fatal
import Core65C02.Proofs.Footprint
import Core65C02.Proofs.Run.Pause
import Core65C02.Proofs.Run.Stepping
import Core65C02.Proofs.Halt
import Core65C02.Proofs.Run.Calls
import Core65C02.Proofs.Run.Counters
import Core65C02.Proofs.Run.Lines
import Core65C02.Proofs.Snapshot.Import
import Core65C02.Proofs.Snapshot.RoundTrip
import Core65C02.Proofs.Snapshot.Component
import Core65C02.Proofs.Snapshot.Update
import Core65C02.Proofs.Conformance.Case
import Core65C02.Proofs.Arithmetic.Binary
import Core65C02.Proofs.Arithmetic.Decimal
import Core65C02.Proofs.Addressing
import Core65C02.Proofs.Encoding.Limit
import Core65C02.Proofs.Encoding.Size
import Core65C02.Proofs.Stack.Refinement
import Core65C02.Proofs.Stack.Nesting
import Core65C02.Proofs.Destination
import Core65C02.Proofs.Arithmetic.Shift
import Core65C02.Proofs.Bits
import Core65C02.Proofs.Dump
import Core65C02.Proofs.Loading
import Core65C02.Proofs.Opcode.Table
import Core65C02.Proofs.Run.Session
import Core65C02.Proofs.Conformance.Report
import Core65C02.Proofs.Settings.Address
import Core65C02.Proofs.Settings.Clock
import Core65C02.Proofs.Checked.Step
