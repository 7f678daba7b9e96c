import Famicom.Word

/-! # Instructions

An instruction byte, the opcode, names an operation (`Mnemonic`) and the way in which its operand
is found (`Mode`).  Of the 256 opcodes 231 have a meaning; some of these were never documented by
the maker of the processor.  `decode` is the opcode matrix, sixteen opcodes to a row. -/

namespace Famicom

/-- The operations of the processor. -/
inductive Mnemonic where
  | adc | and | asl | bcc | bcs | beq | bit | bmi | bne | bpl | brk | bvc | bvs | clc | cld | cli
  | clv | cmp | cpx | cpy | dec | dex | dey | eor | inc | inx | iny | jmp | jsr | lda | ldx | ldy
  | lsr | nop | ora | pha | php | pla | plp | rol | ror | rti | rts | sbc | sec | sed | sei | sta
  | stx | sty | tax | tay | tsx | txa | txs | tya
  -- operations without a documented opcode
  | aax | dcp | isc | lax | rla | rra | skb | skw | slo | sre
deriving Repr, DecidableEq

/-- The name of an operation in a listing. -/
def Mnemonic.name : Mnemonic → String
  | adc => "ADC" | and => "AND" | asl => "ASL" | bcc => "BCC" | bcs => "BCS" | beq => "BEQ"
  | bit => "BIT" | bmi => "BMI" | bne => "BNE" | bpl => "BPL" | brk => "BRK" | bvc => "BVC"
  | bvs => "BVS" | clc => "CLC" | cld => "CLD" | cli => "CLI" | clv => "CLV" | cmp => "CMP"
  | cpx => "CPX" | cpy => "CPY" | dec => "DEC" | dex => "DEX" | dey => "DEY" | eor => "EOR"
  | inc => "INC" | inx => "INX" | iny => "INY" | jmp => "JMP" | jsr => "JSR" | lda => "LDA"
  | ldx => "LDX" | ldy => "LDY" | lsr => "LSR" | nop => "NOP" | ora => "ORA" | pha => "PHA"
  | php => "PHP" | pla => "PLA" | plp => "PLP" | rol => "ROL" | ror => "ROR" | rti => "RTI"
  | rts => "RTS" | sbc => "SBC" | sec => "SEC" | sed => "SED" | sei => "SEI" | sta => "STA"
  | stx => "STX" | sty => "STY" | tax => "TAX" | tay => "TAY" | tsx => "TSX" | txa => "TXA"
  | txs => "TXS" | tya => "TYA" | aax => "AAX" | dcp => "DCP" | isc => "ISC" | lax => "LAX"
  | rla => "RLA" | rra => "RRA" | skb => "SKB" | skw => "SKW" | slo => "SLO" | sre => "SRE"

/-- The ways to find an operand. -/
inductive Mode where
  /-- The accumulator. -/
  | accumulator
  /-- There is no operand, or it is part of the operation. -/
  | implied
  /-- The byte after the opcode. -/
  | immediate
  /-- The distance of a branch: the byte after the opcode. -/
  | relative
  /-- The address in page zero after the opcode, as it is or with an index added. -/
  | zeroPage | zeroPageX | zeroPageY
  /-- The address after the opcode, as it is or with an index added. -/
  | absolute | absoluteX | absoluteY
  /-- The address kept at the address after the opcode. -/
  | indirect
  /-- The address kept in page zero, where the index is added before or after looking it up. -/
  | indirectX | indirectY
deriving Repr, DecidableEq

/-- The number of bytes of an instruction with the given mode. -/
def Mode.instructionSize : Mode → Nat
  | accumulator | implied => 1
  | immediate | relative | zeroPage | zeroPageX | zeroPageY | indirectX | indirectY => 2
  | absolute | absoluteX | absoluteY | indirect => 3

/-- What an opcode means. -/
structure Instruction where
  mnemonic : Mnemonic
  mode : Mode
  documented : Bool
deriving Repr, DecidableEq

namespace Instruction

/-- An entry of the matrix that was documented. -/
def official (mnemonic : Mnemonic) (mode : Mode) : Option Instruction :=
  some ⟨mnemonic, mode, true⟩

/-- An entry of the matrix that was found by trying. -/
def extra (mnemonic : Mnemonic) (mode : Mode) : Option Instruction :=
  some ⟨mnemonic, mode, false⟩

/-- The instructions, with the upper half of the opcode as the row and the lower as the column. -/
def matrix : Vector (Vector (Option Instruction) 16) 16 := #v[
  #v[official .brk .implied, official .ora .indirectX, none, extra .slo .indirectX,
    extra .skb .zeroPage, official .ora .zeroPage, official .asl .zeroPage, extra .slo .zeroPage,
    official .php .implied, official .ora .immediate, official .asl .accumulator, none,
    extra .skw .absolute, official .ora .absolute, official .asl .absolute,
    extra .slo .absolute],
  #v[official .bpl .relative, official .ora .indirectY, none, extra .slo .indirectY,
    extra .skb .zeroPageX, official .ora .zeroPageX, official .asl .zeroPageX,
    extra .slo .zeroPageX, official .clc .implied, official .ora .absoluteY, extra .nop .implied,
    extra .slo .absoluteY, extra .skw .absoluteX, official .ora .absoluteX,
    official .asl .absoluteX, extra .slo .absoluteX],
  #v[official .jsr .absolute, official .and .indirectX, none, extra .rla .indirectX,
    official .bit .zeroPage, official .and .zeroPage, official .rol .zeroPage,
    extra .rla .zeroPage, official .plp .implied, official .and .immediate,
    official .rol .accumulator, none, official .bit .absolute, official .and .absolute,
    official .rol .absolute, extra .rla .absolute],
  #v[official .bmi .relative, official .and .indirectY, none, extra .rla .indirectY,
    extra .skb .zeroPageX, official .and .zeroPageX, official .rol .zeroPageX,
    extra .rla .zeroPageX, official .sec .implied, official .and .absoluteY, extra .nop .implied,
    extra .rla .absoluteY, extra .skw .absoluteX, official .and .absoluteX,
    official .rol .absoluteX, extra .rla .absoluteX],
  #v[official .rti .implied, official .eor .indirectX, none, extra .sre .indirectX,
    extra .skb .zeroPage, official .eor .zeroPage, official .lsr .zeroPage, extra .sre .zeroPage,
    official .pha .implied, official .eor .immediate, official .lsr .accumulator, none,
    official .jmp .absolute, official .eor .absolute, official .lsr .absolute,
    extra .sre .absolute],
  #v[official .bvc .relative, official .eor .indirectY, none, extra .sre .indirectY,
    extra .skb .zeroPageX, official .eor .zeroPageX, official .lsr .zeroPageX,
    extra .sre .zeroPageX, official .cli .implied, official .eor .absoluteY, extra .nop .implied,
    extra .sre .absoluteY, extra .skw .absoluteX, official .eor .absoluteX,
    official .lsr .absoluteX, extra .sre .absoluteX],
  #v[official .rts .implied, official .adc .indirectX, none, extra .rra .indirectX,
    extra .skb .zeroPage, official .adc .zeroPage, official .ror .zeroPage, extra .rra .zeroPage,
    official .pla .implied, official .adc .immediate, official .ror .accumulator, none,
    official .jmp .indirect, official .adc .absolute, official .ror .absolute,
    extra .rra .absolute],
  #v[official .bvs .relative, official .adc .indirectY, none, extra .rra .indirectY,
    extra .skb .zeroPageX, official .adc .zeroPageX, official .ror .zeroPageX,
    extra .rra .zeroPageX, official .sei .implied, official .adc .absoluteY, extra .nop .implied,
    extra .rra .absoluteY, extra .skw .absoluteX, official .adc .absoluteX,
    official .ror .absoluteX, extra .rra .absoluteX],
  #v[extra .skb .immediate, official .sta .indirectX, extra .skb .immediate,
    extra .aax .indirectX, official .sty .zeroPage, official .sta .zeroPage,
    official .stx .zeroPage, extra .aax .zeroPage, official .dey .implied, extra .skb .immediate,
    official .txa .implied, none, official .sty .absolute, official .sta .absolute,
    official .stx .absolute, extra .aax .absolute],
  #v[official .bcc .relative, official .sta .indirectY, none, none, official .sty .zeroPageX,
    official .sta .zeroPageX, official .stx .zeroPageY, extra .aax .zeroPageY,
    official .tya .implied, official .sta .absoluteY, official .txs .implied, none, none,
    official .sta .absoluteX, none, none],
  #v[official .ldy .immediate, official .lda .indirectX, official .ldx .immediate,
    extra .lax .indirectX, official .ldy .zeroPage, official .lda .zeroPage,
    official .ldx .zeroPage, extra .lax .zeroPage, official .tay .implied,
    official .lda .immediate, official .tax .implied, none, official .ldy .absolute,
    official .lda .absolute, official .ldx .absolute, extra .lax .absolute],
  #v[official .bcs .relative, official .lda .indirectY, none, extra .lax .indirectY,
    official .ldy .zeroPageX, official .lda .zeroPageX, official .ldx .zeroPageY,
    extra .lax .zeroPageY, official .clv .implied, official .lda .absoluteY,
    official .tsx .implied, none, official .ldy .absoluteX, official .lda .absoluteX,
    official .ldx .absoluteY, extra .lax .absoluteY],
  #v[official .cpy .immediate, official .cmp .indirectX, extra .skb .immediate,
    extra .dcp .indirectX, official .cpy .zeroPage, official .cmp .zeroPage,
    official .dec .zeroPage, extra .dcp .zeroPage, official .iny .implied,
    official .cmp .immediate, official .dex .implied, none, official .cpy .absolute,
    official .cmp .absolute, official .dec .absolute, extra .dcp .absolute],
  #v[official .bne .relative, official .cmp .indirectY, none, extra .dcp .indirectY,
    extra .skb .zeroPageX, official .cmp .zeroPageX, official .dec .zeroPageX,
    extra .dcp .zeroPageX, official .cld .implied, official .cmp .absoluteY, extra .nop .implied,
    extra .dcp .absoluteY, extra .skw .absoluteX, official .cmp .absoluteX,
    official .dec .absoluteX, extra .dcp .absoluteX],
  #v[official .cpx .immediate, official .sbc .indirectX, extra .skb .immediate,
    extra .isc .indirectX, official .cpx .zeroPage, official .sbc .zeroPage,
    official .inc .zeroPage, extra .isc .zeroPage, official .inx .implied,
    official .sbc .immediate, official .nop .implied, extra .sbc .immediate,
    official .cpx .absolute, official .sbc .absolute, official .inc .absolute,
    extra .isc .absolute],
  #v[official .beq .relative, official .sbc .indirectY, none, extra .isc .indirectY,
    extra .skb .zeroPageX, official .sbc .zeroPageX, official .inc .zeroPageX,
    extra .isc .zeroPageX, official .sed .implied, official .sbc .absoluteY, extra .nop .implied,
    extra .isc .absoluteY, extra .skw .absoluteX, official .sbc .absoluteX,
    official .inc .absoluteX, extra .isc .absoluteX]]

/-- The instruction with the given opcode, if there is one. -/
def decode (opcode : Byte) : Option Instruction :=
  have := opcode.isLt
  matrix[opcode.toNat / 16][opcode.toNat % 16]

end Instruction

end Famicom
