import Famicom.Word
import Famicom.BitName

/-! # Registers of the picture unit

The processor controls the picture unit through nine registers, eight at consecutive addresses and
one, the start of a transfer to sprite memory, at an address of its own. -/

namespace Famicom.Ppu

/-- The registers of the picture unit. -/
inductive Register where
  | control
  | mask
  | status
  | oamAddress
  | oamData
  | scroll
  | address
  | data
  | oamDma
deriving Repr, DecidableEq

namespace Register

/-- The address of a register. -/
def toInt : Register → Int
  | control => 0x2000
  | mask => 0x2001
  | status => 0x2002
  | oamAddress => 0x2003
  | oamData => 0x2004
  | scroll => 0x2005
  | address => 0x2006
  | data => 0x2007
  | oamDma => 0x4014

/-- The register at the given place among the eight that stand together. -/
def ofIndex : Fin 8 → Register
  | 0 => control
  | 1 => mask
  | 2 => status
  | 3 => oamAddress
  | 4 => oamData
  | 5 => scroll
  | 6 => address
  | 7 => data

/-- The register with the given address, if there is one. -/
def ofInt? (a : Int) : Option Register :=
  if h : 0x2000 ≤ a ∧ a < 0x2008 then some (ofIndex ⟨(a - 0x2000).toNat, by omega⟩)
  else if a = 0x4014 then some oamDma
  else none

theorem ofInt?_toInt (r : Register) : ofInt? r.toInt = some r := by
  cases r <;> rfl

theorem toInt_ofIndex (i : Fin 8) : (ofIndex i).toInt = 0x2000 + i.val := by
  revert i
  decide

theorem ofInt?_eq_some_iff {a : Int} {r : Register} : ofInt? a = some r ↔ a = r.toInt := by
  constructor
  · intro h
    simp only [ofInt?] at h
    split at h
    · cases h
      rw [toInt_ofIndex]
      dsimp only
      omega
    · split at h
      · cases h
        assumption
      · cases h
  · rintro rfl
    exact ofInt?_toInt r

/-- The registers that cannot be read: they set a latch. -/
def writeOnly (r : Register) : Bool := r = scroll || r = address

/-- The register that cannot be written. -/
def readOnly (r : Register) : Bool := r = status

end Register

/-- The bits of the control register. -/
def controlBits : List BitName :=
  BitName.ofLowest ["NAMETABLE_X", "NAMETABLE_Y", "INCREMENT_MODE", "SPRITE_TABLE",
    "BACKGROUND_TABLE", "SPRITE_HEIGHT", "MASTER_SLAVE", "NMI_ENABLE"]

/-- The bits of the mask register. -/
def maskBits : List BitName :=
  BitName.ofLowest ["GREYSCALE", "SHOW_LEFT_BACKGROUND", "SHOW_LEFT_SPRITES", "SHOW_BACKGROUND",
    "SHOW_SPRITES", "EMPHASIZE_RED", "EMPHASIZE_GREEN", "EMPHASIZE_BLUE"]

/-- The bits of the status register; the five lowest have no name. -/
def statusBits : List BitName :=
  [⟨"SPRITE_OVERFLOW", 0x20⟩, ⟨"SPRITE_ZERO_HIT", 0x40⟩, ⟨"VBLANK", 0x80⟩]

/-- Whether video addresses advance by 32, a line of a nametable, and not by one. -/
def stepsByLine (control : Byte) : Bool := control.getLsbD 2

/-- Whether the start of the vertical blank requests an interrupt. -/
def enablesNmi (control : Byte) : Bool := control.getLsbD 7

/-- The status bit of the vertical blank. -/
def vblank : Byte := 0x80

end Famicom.Ppu
