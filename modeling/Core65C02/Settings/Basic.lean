import Core65C02.Settings.Clock

/-!
# Settings of a run

What a run can be told beforehand. Every setting has a default, so a file of settings needs to name
only those that differ.
-/

namespace Core65C02

/-- The assembler that turns source text into a program. -/
structure AssemblerSettings where
  /-- The program to call. -/
  executable : String := "64tass"
  /-- The arguments that are always given to it. -/
  args : List String := ["--mw65c02", "--nostart"]
deriving DecidableEq, Inhabited

/-- The settings of a run. -/
structure Settings where
  /-- Where the program is loaded and started. -/
  baseAddress : UInt16 := 0x0600
  /-- How fast the run is paced. -/
  clock : ClockRate := .unthrottled
  /-- The bound on the steps, if there is one. -/
  maxSteps : Option Nat := none
  /-- Whether the run pauses after every step. -/
  singleStep : Bool := false
  /-- Which messages are shown. -/
  logLevel : String := "info"
  /-- Whether counters are kept. -/
  recordMetrics : Bool := false
  /-- The assembler. -/
  assembler : AssemblerSettings := {}
deriving DecidableEq, Inhabited

/-- Why settings are not accepted. -/
inductive SettingsError
  /-- The clock rate is not valid. -/
  | invalidClock (why : InvalidClock)
  /-- The text is no JSON text of the expected form. -/
  | malformed
  /-- The file cannot be read as text. -/
  | unreadable
deriving DecidableEq

end Core65C02
