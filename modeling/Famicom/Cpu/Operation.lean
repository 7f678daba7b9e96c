import Famicom.Cpu.Effect
import Famicom.Cpu.Instruction

/-! # Operations

Each mnemonic belongs to one of a few kinds of operation, by what it does with its operand and
with the stack; the kind and the mode determine the number of cycles.  A read of an indexed operand
takes one cycle more if the index leads into another page; a store takes that cycle in any case,
and an operation that reads, changes and stores takes two more still. -/

namespace Famicom

/-- What an operation does. -/
inductive Operation where
  /-- Reads the operand. -/
  | load (effect : Byte → Cpu → Cpu)
  /-- Writes the operand. -/
  | store (value : Cpu → Byte)
  /-- Reads the operand, changes it, writes it, and goes on with the changed byte.  The flags that
  tell of the change are set before the write. -/
  | alter (change : Flags.Change) (effect : Byte → Cpu → Cpu)
  /-- Finds the operand and does nothing with it. -/
  | skip
  /-- Has no operand. -/
  | internal (effect : Cpu → Cpu)
  /-- Moves the program counter by the operand if the flags allow it. -/
  | branch (taken : Flags → Bool)
  | push (value : Cpu → Byte)
  | pull (effect : Byte → Cpu → Cpu)
  | jump
  /-- Jumps and leaves the way back on the stack. -/
  | call
  | returnFromCall
  | returnFromInterrupt
  /-- An interrupt by the program itself. -/
  | softwareInterrupt

namespace Mnemonic

open Operation Flags

/-- The operation that a mnemonic names. -/
def operation : Mnemonic → Operation
  | lda => load Cpu.loadA
  | ldx => load Cpu.loadX
  | ldy => load Cpu.loadY
  | lax => load Cpu.loadAX
  | ora => load Cpu.orA
  | and => load Cpu.andA
  | eor => load Cpu.xorA
  | adc => load Cpu.addA
  | sbc => load Cpu.subtractA
  | cmp => load Cpu.compareA
  | cpx => load Cpu.compareX
  | cpy => load Cpu.compareY
  | bit => load Cpu.testBits
  | sta => store (·.a)
  | stx => store (·.x)
  | sty => store (·.y)
  | aax => store fun c => c.a &&& c.x
  | asl => alter shiftLeft.reported fun _ c => c
  | lsr => alter shiftRight.reported fun _ c => c
  | rol => alter rotateLeft.reported fun _ c => c
  | ror => alter rotateRight.reported fun _ c => c
  | inc => alter increment.reported fun _ c => c
  | dec => alter decrement.reported fun _ c => c
  | slo => alter shiftLeft Cpu.orA
  | sre => alter shiftRight Cpu.xorA
  | rla => alter rotateLeft Cpu.andA
  | rra => alter rotateRight Cpu.addA
  | isc => alter increment Cpu.subtractA
  | dcp => alter decrement Cpu.compareA
  | skb => skip
  | skw => skip
  | nop => internal id
  | tax => internal fun c => c.loadX c.a
  | tay => internal fun c => c.loadY c.a
  | tsx => internal fun c => c.loadX c.sp
  | txa => internal fun c => c.loadA c.x
  | tya => internal fun c => c.loadA c.y
  | txs => internal fun c => { c with sp := c.x }
  | inx => internal fun c => c.loadX (c.x + 1)
  | iny => internal fun c => c.loadY (c.y + 1)
  | dex => internal fun c => c.loadX (c.x - 1)
  | dey => internal fun c => c.loadY (c.y - 1)
  | clc => internal (·.mapFlags ({ · with carry := false }))
  | sec => internal (·.mapFlags ({ · with carry := true }))
  | cli => internal (·.mapFlags ({ · with interruptDisable := false }))
  | sei => internal (·.mapFlags ({ · with interruptDisable := true }))
  | cld => internal (·.mapFlags ({ · with decimal := false }))
  | sed => internal (·.mapFlags ({ · with decimal := true }))
  | clv => internal (·.mapFlags ({ · with overflow := false }))
  | bpl => branch fun f => !f.negative
  | bmi => branch fun f => f.negative
  | bvc => branch fun f => !f.overflow
  | bvs => branch fun f => f.overflow
  | bcc => branch fun f => !f.carry
  | bcs => branch fun f => f.carry
  | bne => branch fun f => !f.zero
  | beq => branch fun f => f.zero
  | pha => push (·.a)
  | php => push (·.flags.pushedBySoftware)
  | pla => pull Cpu.loadA
  | plp => pull fun b c => { c with flags := .pulled b }
  | jmp => jump
  | jsr => call
  | rts => returnFromCall
  | rti => returnFromInterrupt
  | brk => softwareInterrupt

end Mnemonic

/-! ### Cycles -/

/-- Cycles of reading an operand, without those for leading into another page. -/
def Mode.readCycles : Mode → Nat
  | accumulator | implied | immediate | relative => 2
  | zeroPage => 3
  | zeroPageX | zeroPageY | absolute | absoluteX | absoluteY => 4
  | indirect | indirectY => 5
  | indirectX => 6

/-- Whether the index of a mode may lead into another page than the address it is added to. -/
def Mode.mayCrossPage : Mode → Bool
  | absoluteX | absoluteY | indirectY => true
  | _ => false

/-- Cycles of an operation, without those that depend on addresses and flags. -/
def Operation.baseCycles : Operation → Mode → Nat
  | load _, mode | skip, mode => mode.readCycles
  | store _, mode => mode.readCycles + mode.mayCrossPage.toNat
  | alter _ _, .accumulator => 2
  | alter _ _, mode => mode.readCycles + mode.mayCrossPage.toNat + 2
  | internal _, _ | branch _, _ => 2
  | push _, _ => 3
  | pull _, _ => 4
  | jump, .indirect => 5
  | jump, _ => 3
  | call, _ | returnFromCall, _ | returnFromInterrupt, _ => 6
  | softwareInterrupt, _ => 7

/-- Whether an operation takes one cycle more if its operand is in another page. -/
def Operation.paysForPage : Operation → Mode → Bool
  | load _, mode | skip, mode => mode.mayCrossPage
  | _, _ => false

namespace Instruction

/-- Cycles of an instruction, without those that depend on addresses and flags. -/
def baseCycles (i : Instruction) : Nat := i.mnemonic.operation.baseCycles i.mode

/-- Whether an instruction takes one cycle more if its operand is in another page. -/
def paysForPage (i : Instruction) : Bool := i.mnemonic.operation.paysForPage i.mode

end Instruction

end Famicom
