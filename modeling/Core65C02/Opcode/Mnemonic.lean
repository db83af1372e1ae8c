/-!
# Mnemonics

The names of the instructions: those of the 65C02 and the three debugging instructions DBP, DRS and
DMP of this core. The bit instructions come in families of eight, one member for each bit.
-/

namespace Core65C02

/-- There are bits, so that numbers can be read as bits. -/
instance neZeroEight : @NeZero Nat Zero.ofOfNat0 8 := ⟨by decide⟩

/-- The name of an instruction, whatever its addressing mode. -/
inductive Mnemonic
  | adc | and | asl
  | bbr (bit : Fin 8) | bbs (bit : Fin 8)
  | bcc | bcs | beq | bit | bmi | bne | bpl | bra | brk | bvc | bvs
  | clc | cld | cli | clv | cmp | cpx | cpy
  | dec | dex | dey | eor | inc | inx | iny | jmp | jsr
  | lda | ldx | ldy | lsr | nop | ora
  | pha | php | phx | phy | pla | plp | plx | ply
  | rmb (bit : Fin 8)
  | rol | ror | rti | rts | sbc | sec | sed | sei
  | smb (bit : Fin 8)
  | sta | stp | stx | sty | stz
  | tax | tay | trb | tsb | tsx | txa | txs | tya | wai
  | dbp | drs | dmp
deriving DecidableEq

namespace Mnemonic

/-- The eight members of a bit family, from bit 0 up. -/
def family (member : Fin 8 → Mnemonic) : List Mnemonic :=
  [member 0, member 1, member 2, member 3, member 4, member 5, member 6, member 7]

/-- Every mnemonic once: alphabetically, with the debugging instructions last. -/
def all : List Mnemonic :=
  [adc, and, asl] ++ family bbr ++ family bbs ++
  [bcc, bcs, beq, bit, bmi, bne, bpl, bra, brk, bvc, bvs,
   clc, cld, cli, clv, cmp, cpx, cpy,
   dec, dex, dey, eor, inc, inx, iny, jmp, jsr,
   lda, ldx, ldy, lsr, nop, ora,
   pha, php, phx, phy, pla, plp, plx, ply] ++ family rmb ++
  [rol, ror, rti, rts, sbc, sec, sed, sei] ++ family smb ++
  [sta, stp, stx, sty, stz,
   tax, tay, trb, tsb, tsx, txa, txs, tya, wai,
   dbp, drs, dmp]

/-- The number of mnemonics. -/
def count : Nat := all.length

/-- The position of a mnemonic in `all`. -/
def index (m : Mnemonic) : Nat := all.idxOf m

theorem mem_all (m : Mnemonic) : m ∈ all := by
  cases m <;> first
    | decide
    | (rename_i b; revert b; decide)

/-- The upper-case spelling; the members of a family end in their bit. -/
def name : Mnemonic → String
  | adc => "ADC" | and => "AND" | asl => "ASL"
  | bbr b => "BBR" ++ toString b.val | bbs b => "BBS" ++ toString b.val
  | bcc => "BCC" | bcs => "BCS" | beq => "BEQ" | bit => "BIT" | bmi => "BMI" | bne => "BNE"
  | bpl => "BPL" | bra => "BRA" | brk => "BRK" | bvc => "BVC" | bvs => "BVS"
  | clc => "CLC" | cld => "CLD" | cli => "CLI" | clv => "CLV"
  | cmp => "CMP" | cpx => "CPX" | cpy => "CPY"
  | dec => "DEC" | dex => "DEX" | dey => "DEY" | eor => "EOR"
  | inc => "INC" | inx => "INX" | iny => "INY" | jmp => "JMP" | jsr => "JSR"
  | lda => "LDA" | ldx => "LDX" | ldy => "LDY" | lsr => "LSR" | nop => "NOP" | ora => "ORA"
  | pha => "PHA" | php => "PHP" | phx => "PHX" | phy => "PHY"
  | pla => "PLA" | plp => "PLP" | plx => "PLX" | ply => "PLY"
  | rmb b => "RMB" ++ toString b.val
  | rol => "ROL" | ror => "ROR" | rti => "RTI" | rts => "RTS"
  | sbc => "SBC" | sec => "SEC" | sed => "SED" | sei => "SEI"
  | smb b => "SMB" ++ toString b.val
  | sta => "STA" | stp => "STP" | stx => "STX" | sty => "STY" | stz => "STZ"
  | tax => "TAX" | tay => "TAY" | trb => "TRB" | tsb => "TSB" | tsx => "TSX"
  | txa => "TXA" | txs => "TXS" | tya => "TYA" | wai => "WAI"
  | dbp => "DBP" | drs => "DRS" | dmp => "DMP"

/-- Whether the mnemonic names one of the debugging instructions, which no 65C02 has. -/
def isDebug : Mnemonic → Bool
  | dbp | drs | dmp => true
  | _ => false

end Mnemonic

end Core65C02
