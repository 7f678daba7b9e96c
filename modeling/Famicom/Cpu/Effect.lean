import Famicom.Cpu.Basic

/-! # Effects on registers

What the operations do to the registers once their operand is known: no bus takes part.  Sums are
formed over the natural numbers and then reduced, so that the carry is the part that does not fit.
The decimal flag has no influence on any of them. -/

namespace Famicom

namespace Flags

/-- A byte with a place for what is moved out of it, and the flags that tell of it. -/
abbrev Change : Type := Byte → Flags → Byte × Flags

/-- Moves all bits up; the highest goes to the carry. -/
def shiftLeft : Change := fun b f =>
  (BitVec.ofNat 8 (b.toNat * 2), { f with carry := 128 ≤ b.toNat })

/-- Moves all bits down; the lowest goes to the carry. -/
def shiftRight : Change := fun b f =>
  (BitVec.ofNat 8 (b.toNat / 2), { f with carry := b.toNat % 2 == 1 })

/-- Moves all bits up, with the carry as the bit before the lowest and after the highest. -/
def rotateLeft : Change := fun b f =>
  (BitVec.ofNat 8 (b.toNat * 2 + f.carry.toNat), { f with carry := 128 ≤ b.toNat })

/-- Moves all bits down, with the carry as the bit after the highest and before the lowest. -/
def rotateRight : Change := fun b f =>
  (BitVec.ofNat 8 (b.toNat / 2 + f.carry.toNat * 128), { f with carry := b.toNat % 2 == 1 })

/-- Adds one, the flags untouched. -/
def increment : Change := fun b f => (b + 1, f)

/-- Takes one away, the flags untouched. -/
def decrement : Change := fun b f => (b - 1, f)

/-- A change after which zero and negative tell of the new byte. -/
def Change.reported (change : Change) : Change := fun b f =>
  let (b, f) := change b f
  (b, f.withResult b)

end Flags

namespace Cpu

/-- Sets the accumulator. -/
def loadA (b : Byte) (c : Cpu) : Cpu := { c with a := b }.withResult b

/-- Sets the register x. -/
def loadX (b : Byte) (c : Cpu) : Cpu := { c with x := b }.withResult b

/-- Sets the register y. -/
def loadY (b : Byte) (c : Cpu) : Cpu := { c with y := b }.withResult b

/-- Sets the accumulator and the register x. -/
def loadAX (b : Byte) (c : Cpu) : Cpu := { c with a := b, x := b }.withResult b

/-- Combines the accumulator with a byte, bit by bit. -/
def orA (b : Byte) (c : Cpu) : Cpu := c.loadA (c.a ||| b)

/-- Keeps the bits of the accumulator that are set in a byte. -/
def andA (b : Byte) (c : Cpu) : Cpu := c.loadA (c.a &&& b)

/-- Turns the bits of the accumulator that are set in a byte. -/
def xorA (b : Byte) (c : Cpu) : Cpu := c.loadA (c.a ^^^ b)

/-- Adds a byte and the carry to the accumulator.  Overflow tells that both have a sign which the
sum has not. -/
def addA (b : Byte) (c : Cpu) : Cpu :=
  let sum := c.a.toNat + b.toNat + c.flags.carry.toNat
  let result := BitVec.ofNat 8 sum
  { c with
    a := result
    flags := { c.flags with
      carry := 256 ≤ sum
      overflow := ((c.a ^^^ result) &&& (b ^^^ result)).msb
      zero := result == 0
      negative := result.msb } }

/-- Takes a byte, and one if the carry is clear, from the accumulator. -/
def subtractA (b : Byte) (c : Cpu) : Cpu := c.addA (~~~b)

/-- Compares a register with a byte: the carry tells that the byte is not greater. -/
def compare (register b : Byte) (c : Cpu) : Cpu :=
  c.mapFlags fun f => { f with carry := b ≤ register }.withResult (register - b)

/-- Compares the accumulator with a byte. -/
def compareA (b : Byte) (c : Cpu) : Cpu := c.compare c.a b

/-- Compares the register x with a byte. -/
def compareX (b : Byte) (c : Cpu) : Cpu := c.compare c.x b

/-- Compares the register y with a byte. -/
def compareY (b : Byte) (c : Cpu) : Cpu := c.compare c.y b

/-- Tests bits: zero tells of the accumulator and the byte together, negative and overflow are the
two highest bits of the byte. -/
def testBits (b : Byte) (c : Cpu) : Cpu :=
  c.mapFlags fun f =>
    { f with zero := c.a &&& b == 0, overflow := b.getLsbD 6, negative := b.msb }

end Cpu

end Famicom
