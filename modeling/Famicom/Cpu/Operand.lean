import Famicom.Cpu.Activity
import Famicom.Cpu.Instruction

/-! # Operands

How each mode finds its operand.  Most modes lead to an address; an index is added to it modulo the
size of page zero or of the whole address space, and the high byte of an address kept in memory is
looked up in the page of its low byte. -/

namespace Famicom

/-- What an instruction works on. -/
inductive Operand where
  | none
  | accumulator
  | value (b : Byte)
  /-- A cell; `crossed` tells that the index led into another page. -/
  | cell (address : Word) (crossed : Bool)
deriving Repr, DecidableEq

namespace Operand

/-- The cell an index beyond a base address. -/
def indexed (base : Word) (index : Byte) : Operand :=
  let address := base + index.setWidth 16
  .cell address (base.crossesPage address)

/-- Whether an index led into another page. -/
def crossed : Operand → Bool
  | cell _ crossed => crossed
  | _ => false

/-- The address of the operand, or zero if it has none. -/
def address : Operand → Word
  | cell address _ => address
  | _ => 0

/-- Reads the operand. -/
def load : Operand → Program Byte
  | none => pure 0
  | accumulator => return (← get).a
  | value b => pure b
  | cell address _ => Program.read address

/-- Writes the operand. -/
def store : Operand → Byte → Program Unit
  | none, _ | value _, _ => pure ()
  | accumulator, b => modify fun cpu => { cpu with a := b }
  | cell address _, b => Program.write address b

end Operand

open Program

/-- Finds the operand of a mode, fetching the instruction bytes that tell of it. -/
def Mode.operand : Mode → Program Operand
  | accumulator => pure .accumulator
  | implied => pure .none
  | immediate | relative => return .value (← fetch)
  | zeroPage => do
    let offset ← fetch
    return .cell (.zeroPage offset) false
  | zeroPageX => do
    let offset ← fetch
    return .cell (.zeroPage (offset + (← get).x)) false
  | zeroPageY => do
    let offset ← fetch
    return .cell (.zeroPage (offset + (← get).y)) false
  | absolute => do
    let base ← fetchWord
    return .cell base false
  | absoluteX => do
    let base ← fetchWord
    return .indexed base (← get).x
  | absoluteY => do
    let base ← fetchWord
    return .indexed base (← get).y
  | indirect => do
    let pointer ← fetchWord
    let address ← readPointer pointer
    return .cell address false
  | indirectX => do
    let offset ← fetch
    let address ← readPointer (.zeroPage (offset + (← get).x))
    return .cell address false
  | indirectY => do
    let offset ← fetch
    let base ← readPointer (.zeroPage offset)
    return .indexed base (← get).y

end Famicom
