import Famicom.Word
import Famicom.BitName

/-! # Processor flags

Eight flags, kept as one truth value each and written to the stack as one byte.  `toByte` and
`ofByte` are inverse to each other, so no byte pulled from the stack is lost. -/

namespace Famicom

/-- The flags of the processor. -/
structure Flags where
  carry : Bool := false
  zero : Bool := false
  interruptDisable : Bool := false
  decimal : Bool := false
  /-- Tells a status byte on the stack that an instruction put there from one of an interrupt. -/
  brk : Bool := false
  unused : Bool := false
  overflow : Bool := false
  negative : Bool := false
deriving Repr, DecidableEq

namespace Flags

/-- The names of the flags. -/
def bits : List BitName :=
  BitName.ofLowest
    ["CARRY", "ZERO", "INTERRUPT", "DECIMAL", "BREAK", "UNUSED", "OVERFLOW", "NEGATIVE"]

/-- The flags as a byte, carry the lowest bit. -/
def toByte (f : Flags) : Byte :=
  BitVec.ofBoolListLE
    [f.carry, f.zero, f.interruptDisable, f.decimal, f.brk, f.unused, f.overflow, f.negative]

/-- The flags that a byte holds. -/
def ofByte (b : Byte) : Flags where
  carry := b.getLsbD 0
  zero := b.getLsbD 1
  interruptDisable := b.getLsbD 2
  decimal := b.getLsbD 3
  brk := b.getLsbD 4
  unused := b.getLsbD 5
  overflow := b.getLsbD 6
  negative := b.getLsbD 7

theorem ofByte_toByte (f : Flags) : ofByte f.toByte = f := by
  rcases f with ⟨c, z, i, d, b, u, v, n⟩
  revert c z i d b u v n
  decide

theorem toByte_ofByte : ∀ b : Byte, (ofByte b).toByte = b := by
  decide +kernel

/-- The flags after a reset. -/
def initial : Flags := { interruptDisable := true, unused := true }

/-- The flags with zero and negative telling of a byte. -/
def withResult (f : Flags) (b : Byte) : Flags :=
  { f with zero := b == 0, negative := b.msb }

/-- The byte that an instruction puts on the stack: the break flag is set. -/
def pushedBySoftware (f : Flags) : Byte :=
  { f with brk := true, unused := true }.toByte

/-- The byte that an interrupt puts on the stack: the break flag is clear. -/
def pushedByInterrupt (f : Flags) : Byte :=
  { f with brk := false, unused := true }.toByte

/-- The flags taken from a byte of the stack, whose break and unused flags do not count. -/
def pulled (b : Byte) : Flags :=
  { ofByte b with brk := false, unused := true }

/-- The flags as a debugger shows them: the unused one is always set. -/
def shown (f : Flags) : Byte :=
  { f with unused := true }.toByte

end Flags

end Famicom
