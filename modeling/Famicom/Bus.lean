import Famicom.Memory

/-! # Buses

The processor sees the rest of the machine as a bus: 65536 addresses that can be read and written.
An access is first checked and then carried out, and a refused access changes nothing.  Reading may
change what is on the bus, since some addresses are registers with side effects.

A plain memory is a bus.  One of fewer than 65536 cells refuses accesses beyond its end. -/

namespace Famicom

/-- What the processor can be connected to. -/
class Bus (β : Type) where
  /-- Why an address must not be read, if so. -/
  readFault? : β → Word → Option Fault
  /-- The byte read, and the bus after it. -/
  read : β → Word → Byte × β
  /-- Why an address must not be written, if so. -/
  writeFault? : β → Word → Option Fault
  /-- The bus with a byte written. -/
  write : β → Word → Byte → β

namespace Memory

variable {n : Nat}

/-- The fault of an access to an address that has no cell. -/
def busFault? (n : Nat) (a : Word) : Option Fault :=
  if a.toNat < n then none else some (.addressOutOfRange a.toNat)

/-- The byte at an address, or zero beyond the end. -/
def busRead (m : Memory n) (a : Word) : Byte :=
  if h : a.toNat < n then m.get ⟨a.toNat, h⟩ else 0

/-- The memory with a byte written at an address, unless that is beyond the end. -/
def busWrite (m : Memory n) (a : Word) (d : Byte) : Memory n :=
  if h : a.toNat < n then m.set ⟨a.toNat, h⟩ d else m

instance : Bus (Memory n) where
  readFault? _ a := busFault? n a
  read m a := (m.busRead a, m)
  writeFault? _ a := busFault? n a
  write m a d := m.busWrite a d

theorem busFault?_full (a : Word) : busFault? 0x10000 a = none := by
  have := a.isLt
  rw [busFault?, if_pos this]

theorem busRead_busWrite_self (m : Memory 0x10000) (a : Word) (d : Byte) :
    (m.busWrite a d).busRead a = d := by
  have h := a.isLt
  simp [busRead, busWrite, h]

theorem busRead_busWrite_ne (m : Memory n) {a b : Word} (d : Byte) (h : a ≠ b) :
    (m.busWrite a d).busRead b = m.busRead b := by
  have hv : a.toNat ≠ b.toNat := fun hv => h (BitVec.eq_of_toNat_eq hv)
  simp only [busRead, busWrite]
  split
  · split
    · rw [get_set_ne _ _ (by simp [hv])]
    · rfl
  · rfl

end Memory

end Famicom
