/-!
# The status register

Seven flags and the byte they pack into. Bit 5 of that byte has no flag behind it: packing leaves it
clear and unpacking ignores it.
-/

namespace Core65C02

/-- The seven flags of the processor. -/
inductive Flag
  | carry | zero | interruptDisable | decimalMode | breakCommand | overflow | negative
deriving DecidableEq

/-- The bit of the packed status that stands for a flag. -/
def Flag.mask : Flag → UInt8
  | .carry => 0x01
  | .zero => 0x02
  | .interruptDisable => 0x04
  | .decimalMode => 0x08
  | .breakCommand => 0x10
  | .overflow => 0x40
  | .negative => 0x80

/-- The bit of the packed status behind which no flag stands. -/
def unusedMask : UInt8 := 0x20

/-- The bits of the packed status behind which a flag stands. -/
def modeledMask : UInt8 := ~~~unusedMask

/-- Whether bit 7 of a byte is set, which is its sign in two's complement. -/
@[inline]
def isNegative (value : UInt8) : Bool := value &&& 0x80 != 0

/-- The state of each flag. -/
structure StatusFlags where
  /-- Carry out of the last addition, or no borrow from the last subtraction. -/
  carry : Bool := false
  /-- The last value was zero. -/
  zero : Bool := false
  /-- Interrupts are masked. -/
  interruptDisable : Bool := false
  /-- Additions and subtractions work on decimal digits. -/
  decimalMode : Bool := false
  /-- The status was pushed by an instruction. -/
  breakCommand : Bool := false
  /-- The last signed result did not fit. -/
  overflow : Bool := false
  /-- The last value had bit 7 set. -/
  negative : Bool := false
deriving DecidableEq, Inhabited

namespace StatusFlags

/-- The byte in which each flag occupies the bit of its mask. -/
def pack (s : StatusFlags) : UInt8 :=
  (if s.carry then 0x01 else 0) ||| (if s.zero then 0x02 else 0) |||
  (if s.interruptDisable then 0x04 else 0) ||| (if s.decimalMode then 0x08 else 0) |||
  (if s.breakCommand then 0x10 else 0) ||| (if s.overflow then 0x40 else 0) |||
  (if s.negative then 0x80 else 0)

/-- The flags that a packed byte stands for; bit 5 is ignored. -/
def unpack (p : UInt8) : StatusFlags where
  carry := p &&& 0x01 != 0
  zero := p &&& 0x02 != 0
  interruptDisable := p &&& 0x04 != 0
  decimalMode := p &&& 0x08 != 0
  breakCommand := p &&& 0x10 != 0
  overflow := p &&& 0x40 != 0
  negative := p &&& 0x80 != 0

/-- Whether any of the flags selected by a mask is set. -/
def any (s : StatusFlags) (mask : UInt8) : Bool := s.pack &&& mask != 0

/-- Sets or clears all flags selected by a mask. -/
def assign (s : StatusFlags) (mask : UInt8) (value : Bool) : StatusFlags :=
  unpack (if value then s.pack ||| mask else s.pack &&& ~~~mask)

/-- The state of one flag. -/
def test (s : StatusFlags) : Flag → Bool
  | .carry => s.carry
  | .zero => s.zero
  | .interruptDisable => s.interruptDisable
  | .decimalMode => s.decimalMode
  | .breakCommand => s.breakCommand
  | .overflow => s.overflow
  | .negative => s.negative

/-- Gives one flag a new state. -/
def put (s : StatusFlags) (value : Bool) : Flag → StatusFlags
  | .carry => { s with carry := value }
  | .zero => { s with zero := value }
  | .interruptDisable => { s with interruptDisable := value }
  | .decimalMode => { s with decimalMode := value }
  | .breakCommand => { s with breakCommand := value }
  | .overflow => { s with overflow := value }
  | .negative => { s with negative := value }

/-- Derives Zero and Negative from a value that was just produced. -/
@[inline]
def ofValue (s : StatusFlags) (value : UInt8) : StatusFlags :=
  { s with zero := value == 0, negative := isNegative value }

end StatusFlags

end Core65C02
