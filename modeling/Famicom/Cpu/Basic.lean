import Famicom.Cpu.Flags

/-! # The processor

The registers of the processor, and the count of the cycles it has spent.  One setting belongs to
it: whether the break instruction halts it. -/

namespace Famicom

/-- The state of the processor. -/
structure Cpu where
  /-- The accumulator. -/
  a : Byte := 0
  x : Byte := 0
  y : Byte := 0
  /-- The stack pointer: the offset in page one of the next free cell. -/
  sp : Byte := 0
  /-- The address of the next instruction byte. -/
  pc : Word := 0
  flags : Flags := {}
  cycles : Nat := 0
  breakHalts : Bool := true
deriving Repr, DecidableEq

namespace Cpu

/-- The status byte as a debugger shows it. -/
def statusByte (c : Cpu) : Byte := c.flags.shown

/-- The processor with its flags changed. -/
def mapFlags (c : Cpu) (f : Flags → Flags) : Cpu := { c with flags := f c.flags }

/-- The processor with zero and negative telling of a byte. -/
def withResult (c : Cpu) (b : Byte) : Cpu := c.mapFlags (·.withResult b)

/-- Cycles that an interrupt takes, and that a reset has taken. -/
def interruptCycles : Nat := 7

/-- Where the address of the handler of a non-maskable interrupt is kept. -/
def nmiVector : Word := 0xFFFA

/-- Where the address of the first instruction after a reset is kept. -/
def resetVector : Word := 0xFFFC

/-- Where the address of the handler of other interrupts and of breaks is kept. -/
def irqVector : Word := 0xFFFE

end Cpu

end Famicom
