import Famicom.Memory

/-! # Video memory

The memory of the picture unit lies behind addresses of 14 bits.  Below `0x3000` stand the pattern
tables and the nametables; the range from there up to `0x3F00` shows the nametables once more.
Above it stand the 32 palette entries, repeated up to the top, and of them the four backdrop
entries of the sprite palettes are those of the background palettes.  `VideoMemory.cell` sends each
address to the one cell that it names, so that reading and writing is done cell by cell. -/

namespace Famicom

/-- Names of the cells of video memory. -/
inductive VideoMemory.Cell where
  | table (i : Fin 0x3000)
  | palette (i : Fin 0x20)
deriving Repr, DecidableEq

/-- The contents of video memory. -/
@[ext] structure VideoMemory where
  tables : Memory 0x3000
  palettes : Memory 0x20
deriving Repr, DecidableEq

namespace VideoMemory

/-- The palette entry shown at `i` entries above the start of the palettes. -/
def paletteEntry (i : Nat) : Fin 0x20 :=
  let entry := i % 0x20
  if 0x10 ≤ entry ∧ entry % 4 = 0 then ⟨entry - 0x10, by omega⟩ else ⟨entry, by omega⟩

/-- The cell that an address names. -/
def cell (address : Int) : Cell :=
  let a := (address % 0x4000).toNat
  if h : a < 0x3000 then .table ⟨a, h⟩
  else if h : a < 0x3F00 then .table ⟨a - 0x1000, by omega⟩
  else .palette (paletteEntry (a - 0x3F00))

/-- Video memory that holds zero everywhere. -/
def zero : VideoMemory := ⟨Memory.zero _, Memory.zero _⟩

/-- The byte in a cell. -/
def get (m : VideoMemory) : Cell → Byte
  | .table i => m.tables.get i
  | .palette i => m.palettes.get i

/-- The memory with `d` in a cell. -/
def set : VideoMemory → Cell → Byte → VideoMemory
  | ⟨tables, palettes⟩, .table i, d => ⟨tables.set i d, palettes⟩
  | ⟨tables, palettes⟩, .palette i, d => ⟨tables, palettes.set i d⟩

@[simp, grind =] theorem get_zero (c : Cell) : zero.get c = 0 := by
  cases c <;> simp [get, zero]

@[simp, grind =] theorem get_set_self (m : VideoMemory) (c : Cell) (d : Byte) :
    (m.set c d).get c = d := by
  cases c <;> simp [get, set]

theorem get_set_ne (m : VideoMemory) {c c' : Cell} (d : Byte) (h : c ≠ c') :
    (m.set c d).get c' = m.get c' := by
  cases c <;> cases c' <;> simp only [get, set] <;>
    exact Memory.get_set_ne _ _ fun hi => h (by rw [hi])

/-- The byte at an address. -/
def read (m : VideoMemory) (address : Int) : Byte :=
  m.get (cell address)

/-- The memory with a byte stored at an address. -/
def store (m : VideoMemory) (address : Int) (d : Byte) : VideoMemory :=
  m.set (cell address) d

/-- The memory with a value stored at an address, if the value is a byte. -/
def write (m : VideoMemory) (address data : Int) : Except Fault VideoMemory :=
  match Byte.ofInt? data with
  | none => .error .byteOutOfRange
  | some d => .ok (m.store address d)

end VideoMemory

end Famicom
