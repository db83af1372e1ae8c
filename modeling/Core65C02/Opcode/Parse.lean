import Core65C02.Opcode.Mnemonic
import Core65C02.Text.Blank

/-!
# Reading mnemonics

Mnemonics are read in either case and with blanks around them.
-/

namespace Core65C02.Mnemonic

/-- The mnemonic that a text names. -/
def parse? (text : String) : Option Mnemonic :=
  let wanted := (Text.trimChars text.toList).map Char.toUpper
  all.find? fun m => m.name.toList == wanted

/-- The complaint about a text that names no mnemonic. -/
def unknownMessage (text : String) : String := "unknown mnemonic `" ++ text ++ "`"

end Core65C02.Mnemonic
