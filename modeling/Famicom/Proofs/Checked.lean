import Famicom.Board

/-! # Checks that never fail

The parts of the machine are given integers and check them: a memory its addresses and the bytes to
be stored, the picture unit the addresses of its registers.  If an address is a word and what is to
be stored is a byte, no check fails, on a memory and on the board alike: the checks let through what
the bus lets through (`Memory.checks`, `Board.checks`).

On the board an address goes through the checks of the part that it leads to
(`Board.readChecked`, `Board.writeChecked`), at whatever place of that part it leads to. -/

namespace Famicom

/-- A bus that is given integers and checks them. -/
class CheckedBus (β : Type) where
  read : β → Int → Except Fault Byte × β
  write : β → Int → Int → Except Fault Unit × β

/-- What is left after something has been stored or refused. -/
def CheckedBus.storedIn {γ β : Type} (bus : β) (put : γ → β) :
    Except Fault γ → Except Fault Unit × β
  | .ok c => (.ok (), put c)
  | .error fault => (.error fault, bus)

instance {n : Nat} : CheckedBus (Memory n) where
  read m a := (m.read a, m)
  write m a d := CheckedBus.storedIn m id (m.write a d)

/-! ### The board part by part -/

namespace Cartridge

/-- The bank that the lower half of program memory shows. -/
def lower : Cartridge → Memory 0x4000
  | mirrored bank => bank
  | split lower _ => lower

/-- The bank that the upper half of program memory shows. -/
def upper : Cartridge → Memory 0x4000
  | mirrored bank => bank
  | split _ upper => upper

def withLower : Cartridge → Memory 0x4000 → Cartridge
  | mirrored _, m => mirrored m
  | split _ upper, m => split m upper

def withUpper : Cartridge → Memory 0x4000 → Cartridge
  | mirrored _, m => mirrored m
  | split lower _, m => split lower m

end Cartridge

namespace Board

/-- Reads a register of the picture unit, which checks the address. -/
def readRegister (b : Board) (a : Int) : Except Fault Byte × Board :=
  let (result, ppu) := b.ppu.readAt a
  (result, { b with ppu })

/-- Writes a register of the picture unit, which checks the address. -/
def writeRegister (b : Board) (a d : Int) : Except Fault Unit × Board :=
  let (result, ppu) := b.ppu.writeAt a d
  (result.map fun _ => (), { b with ppu })

/-- Reads at an address; the part that it leads to checks the place. -/
def readChecked (b : Board) (address : Int) : Except Fault Byte × Board :=
  let a := address % 0x10000
  if a < 0x2000 then (b.ram.read (a % 0x800), b)
  else if a < 0x4000 then b.readRegister (0x2000 + (a - 0x2000) % 8)
  else if a = 0x4014 then b.readRegister a
  else if a < 0x4020 then (b.io.read (a - 0x4000), b)
  else if a < 0x8000 then (b.saveRam.read (a - 0x4020), b)
  else if a < 0xC000 then (b.cartridge.lower.read (a - 0x8000), b)
  else (b.cartridge.upper.read (a - 0xC000), b)

/-- Writes at an address; the part that it leads to checks the place and the value. -/
def writeChecked (b : Board) (address d : Int) : Except Fault Unit × Board :=
  let a := address % 0x10000
  if a < 0x2000 then CheckedBus.storedIn b ({ b with ram := · }) (b.ram.write (a % 0x800) d)
  else if a < 0x4000 then b.writeRegister (0x2000 + (a - 0x2000) % 8) d
  else if a = 0x4014 then b.writeRegister a d
  else if a < 0x4020 then CheckedBus.storedIn b ({ b with io := · }) (b.io.write (a - 0x4000) d)
  else if a < 0x8000 then
    CheckedBus.storedIn b ({ b with saveRam := · }) (b.saveRam.write (a - 0x4020) d)
  else if a < 0xC000 then
    CheckedBus.storedIn b (fun m => { b with cartridge := b.cartridge.withLower m })
      (b.cartridge.lower.write (a - 0x8000) d)
  else
    CheckedBus.storedIn b (fun m => { b with cartridge := b.cartridge.withUpper m })
      (b.cartridge.upper.write (a - 0xC000) d)

instance : CheckedBus Board where
  read := readChecked
  write := writeChecked

end Board

namespace Memory

variable {n : Nat} (m : Memory n)

theorem read_of_lt {a : Int} {i : Nat} (hi : i < n) (h : a = i) :
    m.read a = .ok (m.get ⟨i, hi⟩) := by
  subst h
  rw [read, cell?, dif_pos ⟨by omega, by omega⟩]
  rfl

theorem write_of_lt {a : Int} {i : Nat} (hi : i < n) (h : a = i) (d : Byte) :
    m.write a d.toNat = .ok (m.set ⟨i, hi⟩ d) := by
  subst h
  rw [write, cell?, dif_pos ⟨by omega, by omega⟩, Byte.ofInt?_toNat]
  rfl

end Memory

/-! ### No check fails -/

namespace Cartridge

variable (c : Cartridge) {i : Fin 0x8000} (d : Byte)

theorem bankOffset_of_lt (h : i.val < 0x4000) : bankOffset i = ⟨i.val, h⟩ :=
  Fin.ext (Nat.mod_eq_of_lt h)

theorem bankOffset_of_ge (h : 0x4000 ≤ i.val) : bankOffset i = ⟨i.val - 0x4000, by omega⟩ := by
  have hv : i.val % 0x4000 = i.val - 0x4000 := by omega
  exact Fin.ext hv

theorem get_of_lt (h : i.val < 0x4000) : c.get i = c.lower.get ⟨i.val, h⟩ := by
  cases c with
  | mirrored bank => exact congrArg bank.get (bankOffset_of_lt h)
  | split lower upper =>
      rw [get, if_pos h, bankOffset_of_lt h]
      rfl

theorem get_of_ge (h : 0x4000 ≤ i.val) : c.get i = c.upper.get ⟨i.val - 0x4000, by omega⟩ := by
  cases c with
  | mirrored bank => exact congrArg bank.get (bankOffset_of_ge h)
  | split lower upper =>
      rw [get, if_neg (by omega), bankOffset_of_ge h]
      rfl

theorem set_of_lt (h : i.val < 0x4000) : c.set i d = c.withLower (c.lower.set ⟨i.val, h⟩ d) := by
  cases c with
  | mirrored bank =>
      rw [set, bankOffset_of_lt h]
      rfl
  | split lower upper =>
      rw [set, if_pos h, bankOffset_of_lt h]
      rfl

theorem set_of_ge (h : 0x4000 ≤ i.val) :
    c.set i d = c.withUpper (c.upper.set ⟨i.val - 0x4000, by omega⟩ d) := by
  cases c with
  | mirrored bank =>
      rw [set, bankOffset_of_ge h]
      rfl
  | split lower upper =>
      rw [set, if_neg (by omega), bankOffset_of_ge h]
      rfl

end Cartridge

namespace Board

/-- The part of the board that an address leads to, and the place in it. -/
inductive LeadsTo (a : Word) : Target → Prop where
  | ram (h : a.toNat < 0x2000) (i : Fin 0x800) (hi : i.val = a.toNat % 0x800) : LeadsTo a (.ram i)
  | register (h : 0x2000 ≤ a.toNat) (h' : a.toNat < 0x4000) (r : Ppu.Register)
      (hr : r.toInt = 0x2000 + ((a.toNat : Int) - 0x2000) % 8) : LeadsTo a (.register r)
  | oamDma (h : a.toNat = 0x4014) : LeadsTo a (.register .oamDma)
  | io (h : 0x4000 ≤ a.toNat) (h' : a.toNat < 0x4020) (hne : a.toNat ≠ 0x4014) (i : Fin 0x20)
      (hi : i.val = a.toNat - 0x4000) : LeadsTo a (.io i)
  | saveRam (h : 0x4020 ≤ a.toNat) (h' : a.toNat < 0x8000) (i : Fin 0x3FE0)
      (hi : i.val = a.toNat - 0x4020) : LeadsTo a (.saveRam i)
  | program (h : 0x8000 ≤ a.toNat) (i : Fin 0x8000) (hi : i.val = a.toNat - 0x8000) :
      LeadsTo a (.program i)

theorem leadsTo_decode (a : Word) : LeadsTo a (decode a) := by
  have hlt := a.isLt
  unfold decode
  dsimp only
  split
  · exact .ram ‹_› _ rfl
  · split
    · refine .register (by omega) ‹_› _ ?_
      rw [Ppu.Register.toInt_ofIndex]
      dsimp only
      omega
    · split
      · exact .oamDma ‹_›
      · split
        · exact .io (by omega) ‹_› ‹_› _ (by dsimp only; omega)
        · split
          · exact .saveRam (by omega) ‹_› _ rfl
          · exact .program (by omega) _ (by dsimp only; omega)

variable (b : Board)

/-- What the board lets through of a read. -/
def grantedRead (t : Target) : Except Fault Byte × Board :=
  match b.readFault? t with
  | some fault => (.error fault, b)
  | none => (.ok (b.read t).1, (b.read t).2)

theorem readRegister_toInt (r : Ppu.Register) :
    b.readRegister r.toInt = b.grantedRead (.register r) := by
  rw [readRegister, Ppu.readAt, Ppu.Register.ofInt?_toInt, grantedRead, readFault?]
  dsimp only
  cases b.ppu.readFault? r <;> rfl

theorem readChecked_toNat (a : Word) : b.readChecked a.toNat = b.grantedRead (decode a) := by
  have hlt := a.isLt
  have hmod : (a.toNat : Int) % 0x10000 = a.toNat := by omega
  unfold readChecked
  rw [hmod]
  dsimp only
  have ht := leadsTo_decode a
  generalize decode a = t at ht ⊢
  cases ht with
  | ram h i hi =>
      rw [if_pos (by omega), Memory.read_of_lt _ i.isLt (by omega)]
      rfl
  | register h h' r hr =>
      rw [if_neg (by omega), if_pos (by omega), ← hr]
      exact b.readRegister_toInt r
  | oamDma h =>
      rw [if_neg (by omega), if_neg (by omega), if_pos (by omega), h]
      exact b.readRegister_toInt .oamDma
  | io h h' hne i hi =>
      rw [if_neg (by omega), if_neg (by omega), if_neg (by omega), if_pos (by omega),
        Memory.read_of_lt _ i.isLt (by omega)]
      rfl
  | saveRam h h' i hi =>
      rw [if_neg (by omega), if_neg (by omega), if_neg (by omega), if_neg (by omega),
        if_pos (by omega), Memory.read_of_lt _ i.isLt (by omega)]
      rfl
  | program h i hi =>
      rw [if_neg (by omega), if_neg (by omega), if_neg (by omega), if_neg (by omega),
        if_neg (by omega)]
      show _ = (Except.ok (b.cartridge.get i), b)
      split
      · rw [Memory.read_of_lt _ (i := i.val) (by omega) (by omega),
          Cartridge.get_of_lt _ (by omega)]
      · rw [Memory.read_of_lt _ (i := i.val - 0x4000) (by omega) (by omega),
          Cartridge.get_of_ge _ (by omega)]

/-- What the board lets through of a write. -/
def grantedWrite (t : Target) (d : Byte) : Except Fault Unit × Board :=
  match b.writeFault? t with
  | some fault => (.error fault, b)
  | none => (.ok (), b.write t d)

theorem writeRegister_toInt (r : Ppu.Register) (d : Byte) :
    b.writeRegister r.toInt d.toNat = b.grantedWrite (.register r) d := by
  have hd : BitVec.ofInt 8 (d.toNat : Int) = d := by simp
  rw [writeRegister, Ppu.writeAt, Ppu.Register.ofInt?_toInt, grantedWrite, writeFault?, hd]
  dsimp only
  cases b.ppu.writeFault? r <;> rfl

theorem writeChecked_toNat (a : Word) (d : Byte) :
    b.writeChecked a.toNat d.toNat = b.grantedWrite (decode a) d := by
  have hlt := a.isLt
  have hmod : (a.toNat : Int) % 0x10000 = a.toNat := by omega
  unfold writeChecked
  rw [hmod]
  dsimp only
  have ht := leadsTo_decode a
  generalize decode a = t at ht ⊢
  cases ht with
  | ram h i hi =>
      rw [if_pos (by omega), Memory.write_of_lt _ i.isLt (by omega)]
      rfl
  | register h h' r hr =>
      rw [if_neg (by omega), if_pos (by omega), ← hr]
      exact b.writeRegister_toInt r d
  | oamDma h =>
      rw [if_neg (by omega), if_neg (by omega), if_pos (by omega), h]
      exact b.writeRegister_toInt .oamDma d
  | io h h' hne i hi =>
      rw [if_neg (by omega), if_neg (by omega), if_neg (by omega), if_pos (by omega),
        Memory.write_of_lt _ i.isLt (by omega)]
      rfl
  | saveRam h h' i hi =>
      rw [if_neg (by omega), if_neg (by omega), if_neg (by omega), if_neg (by omega),
        if_pos (by omega), Memory.write_of_lt _ i.isLt (by omega)]
      rfl
  | program h i hi =>
      rw [if_neg (by omega), if_neg (by omega), if_neg (by omega), if_neg (by omega),
        if_neg (by omega)]
      show _ = (Except.ok (), { b with cartridge := b.cartridge.set i d })
      split
      · rw [Memory.write_of_lt _ (i := i.val) (by omega) (by omega),
          Cartridge.set_of_lt _ _ (by omega)]
        rfl
      · rw [Memory.write_of_lt _ (i := i.val - 0x4000) (by omega) (by omega),
          Cartridge.set_of_ge _ _ (by omega)]
        rfl

end Board

/-- The checks let through just what the bus lets through. -/
structure CheckedBus.Faithful (β : Type) [Bus β] [CheckedBus β] : Prop where
  read_eq : ∀ (bus : β) (a : Word), CheckedBus.read bus a.toNat =
    match Bus.readFault? bus a with
    | some fault => (.error fault, bus)
    | none => (.ok (Bus.read bus a).1, (Bus.read bus a).2)
  write_eq : ∀ (bus : β) (a : Word) (d : Byte), CheckedBus.write bus a.toNat d.toNat =
    match Bus.writeFault? bus a with
    | some fault => (.error fault, bus)
    | none => (.ok (), Bus.write bus a d)

theorem Board.checks : CheckedBus.Faithful Board where
  read_eq b a := b.readChecked_toNat a
  write_eq b a d := b.writeChecked_toNat a d

theorem Memory.checks (n : Nat) : CheckedBus.Faithful (Memory n) where
  read_eq m a := by
    show (m.read a.toNat, m) =
      match busFault? n a with | some fault => _ | none => (.ok (m.busRead a), m)
    unfold busFault?
    by_cases h : a.toNat < n
    · rw [if_pos h, m.read_of_lt h rfl, busRead, dif_pos h]
    · rw [if_neg h, read, cell?_eq_none_iff.mpr (by omega)]
  write_eq m a d := by
    show CheckedBus.storedIn m id (m.write a.toNat d.toNat) =
      match busFault? n a with | some fault => _ | none => (.ok (), m.busWrite a d)
    unfold busFault?
    by_cases h : a.toNat < n
    · rw [if_pos h, m.write_of_lt h rfl, busWrite, dif_pos h]
      rfl
    · rw [if_neg h, write, cell?_eq_none_iff.mpr (by omega)]
      rfl

end Famicom
