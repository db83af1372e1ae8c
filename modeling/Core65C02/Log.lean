/-!
# Messages

Messages have a level, and a sink keeps those that its filter admits. A capture keeps them in
memory; a forwarder hands them on under a target, to a receiver that has a filter of its own.
-/

namespace Core65C02

/-- How grave a message is, the gravest first. -/
inductive Level
  | error | warn | info | debug | trace
deriving DecidableEq

namespace Level

/-- The levels, the gravest first. -/
def all : List Level := [error, warn, info, debug, trace]

/-- The position of a level, counted from one for the gravest. -/
def rank : Level → Nat
  | error => 1 | warn => 2 | info => 3 | debug => 4 | trace => 5

/-- The name of a level. -/
def name : Level → String
  | error => "ERROR" | warn => "WARN" | info => "INFO" | debug => "DEBUG" | trace => "TRACE"

end Level

/-- Which levels are admitted: none, or those at least as grave as a given one. -/
inductive Filter
  | off
  | upTo (level : Level)
deriving DecidableEq

/-- Whether a filter admits a level. -/
def Filter.admits : Filter → Level → Bool
  | off, _ => false
  | upTo max, level => level.rank ≤ max.rank

/-- A message. -/
structure Message where
  /-- How grave the message is. -/
  level : Level
  /-- What it says. -/
  text : String
deriving DecidableEq

/-- A sink that keeps what it admits, in order. -/
structure Capture where
  /-- The levels that are kept. -/
  filter : Filter := .upTo .info
  /-- The messages kept so far. -/
  messages : Array Message := #[]
deriving DecidableEq

namespace Capture

instance : Inhabited Capture := ⟨{}⟩

/-- Keeps a message if its level is admitted. -/
def add (c : Capture) (m : Message) : Capture :=
  if c.filter.admits m.level then { c with messages := c.messages.push m } else c

/-- Keeps a text at a level. -/
def log (c : Capture) (level : Level) (text : String) : Capture := c.add ⟨level, text⟩

/-- Keeps messages in order. -/
def addAll (c : Capture) (ms : List Message) : Capture := ms.foldl add c

/-- The texts of all messages. -/
def texts (c : Capture) : List String := c.messages.toList.map (·.text)

/-- The texts of the messages at a level. -/
def textsAt (c : Capture) (level : Level) : List String :=
  (c.messages.toList.filter fun m => m.level == level).map (·.text)

/-- Forgets all messages. -/
def clear (c : Capture) : Capture := { c with messages := #[] }

end Capture

/-- A sink that hands messages on under a target. -/
structure Forwarder where
  /-- Under which name the receiver gets the messages. -/
  target : String := "w65c02"
  /-- The levels that are handed on. -/
  filter : Filter := .upTo .trace
deriving DecidableEq

namespace Forwarder

/-- Whether a message of a level would reach a receiver that admits the levels of `receiver`. -/
def admits (f : Forwarder) (receiver : Filter) (level : Level) : Bool :=
  f.filter.admits level && receiver.admits level

/-- What reaches a receiver: the target and the message, if both filters admit its level. -/
def forward (f : Forwarder) (receiver : Filter) (m : Message) : Option (String × Message) :=
  if f.admits receiver m.level then some (f.target, m) else none

end Forwarder

end Core65C02
