import Core65C02.Opcode.Table

/-!
# The 65C02 opcodes

One row for each opcode byte that this core executes, sorted by mnemonic. Three bytes that mean
nothing to a 65C02 carry the debugging instructions: DRS at `$02`, DBP at `$03` and DMP at `$13`.
-/

namespace Core65C02

/-- The rows of the 65C02 and the debugging instructions. -/
def standardRows : List Descriptor := [
  .single 0x69 .adc .immediate 2, .single 0x65 .adc .zeroPage 3, .single 0x75 .adc .zeroPageX 4,
  .single 0x6D .adc .absolute 4, .single 0x7D .adc .absoluteX 4, .single 0x79 .adc .absoluteY 4,
  .single 0x72 .adc .zeroPageIndirect 5, .single 0x61 .adc .zeroPageIndirectX 6,
  .single 0x71 .adc .zeroPageIndirectY 5, .single 0x29 .and .immediate 2,
  .single 0x25 .and .zeroPage 3, .single 0x35 .and .zeroPageX 4, .single 0x2D .and .absolute 4,
  .single 0x3D .and .absoluteX 4, .single 0x39 .and .absoluteY 4,
  .single 0x32 .and .zeroPageIndirect 5, .single 0x21 .and .zeroPageIndirectX 6,
  .single 0x31 .and .zeroPageIndirectY 5, .single 0x0A .asl .accumulator 2,
  .single 0x06 .asl .zeroPage 5, .single 0x16 .asl .zeroPageX 6, .single 0x0E .asl .absolute 6,
  .single 0x1E .asl .absoluteX 6, .bitBranch 0x0F (.bbr 0), .bitBranch 0x1F (.bbr 1),
  .bitBranch 0x2F (.bbr 2), .bitBranch 0x3F (.bbr 3), .bitBranch 0x4F (.bbr 4),
  .bitBranch 0x5F (.bbr 5), .bitBranch 0x6F (.bbr 6), .bitBranch 0x7F (.bbr 7),
  .bitBranch 0x8F (.bbs 0), .bitBranch 0x9F (.bbs 1), .bitBranch 0xAF (.bbs 2),
  .bitBranch 0xBF (.bbs 3), .bitBranch 0xCF (.bbs 4), .bitBranch 0xDF (.bbs 5),
  .bitBranch 0xEF (.bbs 6), .bitBranch 0xFF (.bbs 7), .single 0x90 .bcc .relative 2,
  .single 0xB0 .bcs .relative 2, .single 0xF0 .beq .relative 2, .single 0x30 .bmi .relative 2,
  .single 0xD0 .bne .relative 2, .single 0x10 .bpl .relative 2, .single 0x50 .bvc .relative 2,
  .single 0x70 .bvs .relative 2, .single 0x80 .bra .relative 2, .single 0x89 .bit .immediate 2,
  .single 0x24 .bit .zeroPage 3, .single 0x34 .bit .zeroPageX 4, .single 0x2C .bit .absolute 4,
  .single 0x3C .bit .absoluteX 4, .single 0x00 .brk .implied 7, .single 0x18 .clc .implied 2,
  .single 0xD8 .cld .implied 2, .single 0x58 .cli .implied 2, .single 0xB8 .clv .implied 2,
  .single 0xC9 .cmp .immediate 2, .single 0xC5 .cmp .zeroPage 3, .single 0xD5 .cmp .zeroPageX 4,
  .single 0xCD .cmp .absolute 4, .single 0xDD .cmp .absoluteX 4, .single 0xD9 .cmp .absoluteY 4,
  .single 0xD2 .cmp .zeroPageIndirect 5, .single 0xC1 .cmp .zeroPageIndirectX 6,
  .single 0xD1 .cmp .zeroPageIndirectY 5, .single 0xE0 .cpx .immediate 2,
  .single 0xE4 .cpx .zeroPage 3, .single 0xEC .cpx .absolute 4, .single 0xC0 .cpy .immediate 2,
  .single 0xC4 .cpy .zeroPage 3, .single 0xCC .cpy .absolute 4, .single 0x3A .dec .accumulator 2,
  .single 0xC6 .dec .zeroPage 5, .single 0xD6 .dec .zeroPageX 6, .single 0xCE .dec .absolute 6,
  .single 0xDE .dec .absoluteX 7, .single 0xCA .dex .implied 2, .single 0x88 .dey .implied 2,
  .single 0x49 .eor .immediate 2, .single 0x45 .eor .zeroPage 3, .single 0x55 .eor .zeroPageX 4,
  .single 0x4D .eor .absolute 4, .single 0x5D .eor .absoluteX 4, .single 0x59 .eor .absoluteY 4,
  .single 0x52 .eor .zeroPageIndirect 5, .single 0x41 .eor .zeroPageIndirectX 6,
  .single 0x51 .eor .zeroPageIndirectY 5, .single 0x1A .inc .accumulator 2,
  .single 0xE6 .inc .zeroPage 5, .single 0xF6 .inc .zeroPageX 6, .single 0xEE .inc .absolute 6,
  .single 0xFE .inc .absoluteX 7, .single 0xE8 .inx .implied 2, .single 0xC8 .iny .implied 2,
  .single 0x4C .jmp .absolute 3, .single 0x6C .jmp .absoluteIndirect 6,
  .single 0x7C .jmp .absoluteIndirectX 6, .single 0x20 .jsr .absolute 6,
  .single 0xA9 .lda .immediate 2, .single 0xA5 .lda .zeroPage 3, .single 0xB5 .lda .zeroPageX 4,
  .single 0xAD .lda .absolute 4, .single 0xBD .lda .absoluteX 4, .single 0xB9 .lda .absoluteY 4,
  .single 0xB2 .lda .zeroPageIndirect 5, .single 0xA1 .lda .zeroPageIndirectX 6,
  .single 0xB1 .lda .zeroPageIndirectY 5, .single 0xA2 .ldx .immediate 2,
  .single 0xA6 .ldx .zeroPage 3, .single 0xB6 .ldx .zeroPageY 4, .single 0xAE .ldx .absolute 4,
  .single 0xBE .ldx .absoluteY 4, .single 0xA0 .ldy .immediate 2, .single 0xA4 .ldy .zeroPage 3,
  .single 0xB4 .ldy .zeroPageX 4, .single 0xAC .ldy .absolute 4, .single 0xBC .ldy .absoluteX 4,
  .single 0x4A .lsr .accumulator 2, .single 0x46 .lsr .zeroPage 5, .single 0x56 .lsr .zeroPageX 6,
  .single 0x4E .lsr .absolute 6, .single 0x5E .lsr .absoluteX 6, .single 0xEA .nop .implied 2,
  .single 0x09 .ora .immediate 2, .single 0x05 .ora .zeroPage 3, .single 0x15 .ora .zeroPageX 4,
  .single 0x0D .ora .absolute 4, .single 0x1D .ora .absoluteX 4, .single 0x19 .ora .absoluteY 4,
  .single 0x12 .ora .zeroPageIndirect 5, .single 0x01 .ora .zeroPageIndirectX 6,
  .single 0x11 .ora .zeroPageIndirectY 5, .single 0x48 .pha .implied 3,
  .single 0x08 .php .implied 3, .single 0xDA .phx .implied 3, .single 0x5A .phy .implied 3,
  .single 0x68 .pla .implied 4, .single 0x28 .plp .implied 4, .single 0xFA .plx .implied 4,
  .single 0x7A .ply .implied 4, .single 0x07 (.rmb 0) .zeroPage 5,
  .single 0x17 (.rmb 1) .zeroPage 5, .single 0x27 (.rmb 2) .zeroPage 5,
  .single 0x37 (.rmb 3) .zeroPage 5, .single 0x47 (.rmb 4) .zeroPage 5,
  .single 0x57 (.rmb 5) .zeroPage 5, .single 0x67 (.rmb 6) .zeroPage 5,
  .single 0x77 (.rmb 7) .zeroPage 5, .single 0x2A .rol .accumulator 2,
  .single 0x26 .rol .zeroPage 5, .single 0x36 .rol .zeroPageX 6, .single 0x2E .rol .absolute 6,
  .single 0x3E .rol .absoluteX 6, .single 0x6A .ror .accumulator 2, .single 0x66 .ror .zeroPage 5,
  .single 0x76 .ror .zeroPageX 6, .single 0x6E .ror .absolute 6, .single 0x7E .ror .absoluteX 6,
  .single 0x40 .rti .implied 6, .single 0x60 .rts .implied 6, .single 0xE9 .sbc .immediate 2,
  .single 0xE5 .sbc .zeroPage 3, .single 0xF5 .sbc .zeroPageX 4, .single 0xED .sbc .absolute 4,
  .single 0xFD .sbc .absoluteX 4, .single 0xF9 .sbc .absoluteY 4,
  .single 0xF2 .sbc .zeroPageIndirect 5, .single 0xE1 .sbc .zeroPageIndirectX 6,
  .single 0xF1 .sbc .zeroPageIndirectY 5, .single 0x38 .sec .implied 2,
  .single 0xF8 .sed .implied 2, .single 0x78 .sei .implied 2, .single 0x87 (.smb 0) .zeroPage 5,
  .single 0x97 (.smb 1) .zeroPage 5, .single 0xA7 (.smb 2) .zeroPage 5,
  .single 0xB7 (.smb 3) .zeroPage 5, .single 0xC7 (.smb 4) .zeroPage 5,
  .single 0xD7 (.smb 5) .zeroPage 5, .single 0xE7 (.smb 6) .zeroPage 5,
  .single 0xF7 (.smb 7) .zeroPage 5, .single 0x85 .sta .zeroPage 3, .single 0x95 .sta .zeroPageX 4,
  .single 0x8D .sta .absolute 4, .single 0x9D .sta .absoluteX 5, .single 0x99 .sta .absoluteY 5,
  .single 0x92 .sta .zeroPageIndirect 5, .single 0x81 .sta .zeroPageIndirectX 6,
  .single 0x91 .sta .zeroPageIndirectY 6, .single 0xDB .stp .implied 3,
  .single 0x86 .stx .zeroPage 3, .single 0x96 .stx .zeroPageY 4, .single 0x8E .stx .absolute 4,
  .single 0x84 .sty .zeroPage 3, .single 0x94 .sty .zeroPageX 4, .single 0x8C .sty .absolute 4,
  .single 0x64 .stz .zeroPage 3, .single 0x74 .stz .zeroPageX 4, .single 0x9C .stz .absolute 4,
  .single 0x9E .stz .absoluteX 5, .single 0xAA .tax .implied 2, .single 0xA8 .tay .implied 2,
  .single 0xBA .tsx .implied 2, .single 0x8A .txa .implied 2, .single 0x9A .txs .implied 2,
  .single 0x98 .tya .implied 2, .single 0x14 .trb .zeroPage 5, .single 0x1C .trb .absolute 6,
  .single 0x04 .tsb .zeroPage 5, .single 0x0C .tsb .absolute 6, .single 0xCB .wai .implied 3,
  .single 0x02 .drs .immediate 2, .single 0x03 .dbp .implied 1, .single 0x13 .dmp .implied 1
]

/-- The table by which this core decodes. -/
def OpcodeTable.standard : OpcodeTable := .ofList standardRows

end Core65C02
