import Core65C02.Text.Blank
import Core65C02.Text.Number

/-!
# Clock rates

A run is paced at a named rate, at a number of cycles a second, or not at all. A rate of zero can be
written down but is not valid.
-/

namespace Core65C02

/-- How fast a run is paced. -/
inductive ClockRate
  /-- As fast as possible. -/
  | unthrottled
  /-- 100 kHz. -/
  | micro
  /-- 500 kHz. -/
  | small
  /-- 1 MHz. -/
  | standard
  /-- 5 MHz. -/
  | performance
  /-- 10 MHz. -/
  | turbo
  /-- A number of cycles a second. -/
  | custom (hz : Nat)
deriving DecidableEq, Inhabited

/-- A clock setting that is not valid. -/
structure InvalidClock where
  /-- The setting as it was given. -/
  text : String
deriving DecidableEq

/-- The wording of the fault. -/
def InvalidClock.message (e : InvalidClock) : String := "invalid clock setting `" ++ e.text ++ "`"

namespace ClockRate

/-- The cycles a second, if the run is paced. -/
def hz : ClockRate → Option Nat
  | unthrottled => none
  | micro => some 100000
  | small => some 500000
  | standard => some 1000000
  | performance => some 5000000
  | turbo => some 10000000
  | custom hz => some hz

/-- Accepts every rate but zero. -/
def validate : ClockRate → Except InvalidClock Unit
  | custom 0 => .error ⟨"0 Hz"⟩
  | _ => .ok ()

/-- The text of a rate. -/
def display : ClockRate → String
  | unthrottled => "unthrottled"
  | micro => "micro"
  | small => "small"
  | standard => "standard"
  | performance => "performance"
  | turbo => "turbo"
  | custom hz => toString hz

/-- The rate with a name in lower case. -/
def named? (name : String) : Option ClockRate :=
  match name with
  | "unthrottled" | "off" | "none" => some unthrottled
  | "micro" => some micro
  | "small" => some small
  | "standard" => some standard
  | "performance" => some performance
  | "turbo" => some turbo
  | _ => none

/-- The valid rate that a text stands for: a name in either case, or a number of cycles a second. -/
def parse (text : String) : Except InvalidClock ClockRate := do
  let cs := (Text.trimChars text.toList).map Char.toLower
  let rate ← match named? (String.ofList cs) with
    | some rate => pure rate
    | none =>
      match Text.number 10 (1 <<< 64) cs with
      | .ok n => pure (custom n)
      | .error _ => throw ⟨text⟩
  rate.validate
  return rate

end ClockRate

end Core65C02
