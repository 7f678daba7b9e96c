import Famicom.Ppu.Basic

/-! # Access by address

An integer is the address of one register of the picture unit or of none
(`Ppu.Register.ofInt?_cases`), and each access by address comes down to the register or to nothing.
A strict unit refuses an access that a register does not support; where it is granted, such an
access has no effect.  So what is left behind is the same whether it is refused or not
(`Ppu.snd_readAt_toInt`, `Ppu.snd_writeAt_toInt`).

Each part of the unit is reached by few uses, and most lemmas about a part say that a use does not
reach it.  They follow from what a use writes the unit anew with (`Ppu.snd_readData`,
`Ppu.exists_writeOam_eq`, `Ppu.exists_tick_eq`). -/

namespace Famicom.Ppu

theorem Register.ofInt?_cases (a : Int) : ofInt? a = none ∨ ∃ r : Register, a = r.toInt := by
  cases h : ofInt? a with
  | none => exact Or.inl rfl
  | some r => exact Or.inr ⟨r, ofInt?_eq_some_iff.mp h⟩

section
variable (p : Ppu) {r : Register}

/-! ### Accesses that are granted -/

theorem readFault?_of_readable (h : r.writeOnly = false) : p.readFault? r = none := by
  rw [readFault?, h, Bool.and_false]
  rfl

theorem writeFault?_of_writable (h : r.readOnly = false) : p.writeFault? r = none := by
  rw [writeFault?, h, Bool.and_false]
  rfl

/-! ### Accesses without effect -/

theorem read_of_writeOnly (h : r.writeOnly = true) : p.read r = (0, p) := by
  cases r <;> first | rfl | cases h

theorem write_of_readOnly (h : r.readOnly = true) (d : Byte) : p.write r d = p := by
  cases r <;> first | rfl | cases h

theorem read_of_refused {fault : Fault} (h : p.readFault? r = some fault) : p.read r = (0, p) := by
  unfold readFault? at h
  split at h
  · rename_i hr
    exact p.read_of_writeOnly (Bool.and_eq_true_iff.mp hr).2
  · cases h

theorem write_of_refused {fault : Fault} (h : p.writeFault? r = some fault) (d : Byte) :
    p.write r d = p := by
  unfold writeFault? at h
  split at h
  · rename_i hr
    exact p.write_of_readOnly (Bool.and_eq_true_iff.mp hr).2 d
  · cases h

/-! ### The unit after an access -/

@[simp] theorem snd_readAt_toInt (r : Register) : (p.readAt r.toInt).2 = (p.read r).2 := by
  rw [readAt, Register.ofInt?_toInt]
  dsimp only
  split
  · rename_i fault h
    rw [p.read_of_refused h]
  · rfl

@[simp] theorem snd_writeAt_toInt (r : Register) (d : Int) :
    (p.writeAt r.toInt d).2 = p.write r (BitVec.ofInt 8 d) := by
  rw [writeAt, Register.ofInt?_toInt]
  dsimp only
  split
  · rename_i fault h
    rw [p.write_of_refused h]
  · rfl

/-- An address of no register is refused by all units. -/
theorem readAt_of_none {a : Int} (h : Register.ofInt? a = none) :
    p.readAt a = (.error (.invalidRegister a), p) := by
  rw [readAt, h]

theorem writeAt_of_none {a : Int} (h : Register.ofInt? a = none) (d : Int) :
    p.writeAt a d = (.error (.invalidRegister a), p) := by
  rw [writeAt, h]

/-! ### Accesses at a register -/

theorem readAt_of_readable (h : r.writeOnly = false) :
    p.readAt r.toInt = (.ok (p.read r).1, (p.read r).2) := by
  rw [readAt, Register.ofInt?_toInt]
  dsimp only
  rw [p.readFault?_of_readable h]

theorem readAt_of_writeOnly (h : r.writeOnly = true) :
    p.readAt r.toInt = (if p.strict then .error (.writeOnlyRegister r.toInt) else .ok 0, p) := by
  rw [readAt, Register.ofInt?_toInt]
  dsimp only
  rw [p.read_of_writeOnly h, readFault?, h, Bool.and_true]
  cases p.strict <;> rfl

theorem writeAt_of_writable (h : r.readOnly = false) (d : Int) :
    p.writeAt r.toInt d = (.ok (BitVec.ofInt 8 d), p.write r (BitVec.ofInt 8 d)) := by
  rw [writeAt, Register.ofInt?_toInt]
  dsimp only
  rw [p.writeFault?_of_writable h]

theorem writeAt_of_readOnly (h : r.readOnly = true) (d : Int) :
    p.writeAt r.toInt d =
      (if p.strict then .error (.readOnlyRegister r.toInt) else .ok (BitVec.ofInt 8 d), p) := by
  rw [writeAt, Register.ofInt?_toInt]
  dsimp only
  rw [p.write_of_readOnly h, writeFault?, h, Bool.and_true]
  cases p.strict <;> rfl

/-! ### What is left alone -/

/-- A read through the data register fills the buffer and moves the address on. -/
theorem snd_readData :
    p.readData.2 = advanceAddress { p with
      readBuffer := p.memory.read
        (if 0x3F00 ≤ p.videoAddress then p.videoAddress - 0x1000 else p.videoAddress) } := by
  unfold readData
  dsimp only
  split <;> rfl

/-- A write through the data register stores a byte and moves the address on. -/
theorem writeData_eq (d : Byte) :
    p.writeData d = advanceAddress { p with memory := p.memory.store p.videoAddress d } :=
  rfl

/-- Bytes stored in sprite memory leave everything else alone. -/
theorem exists_writeOam_eq (data : List Byte) :
    ∃ oam oamAddress, p.writeOam data = { p with oam, oamAddress } := by
  unfold writeOam
  induction data generalizing p with
  | nil => exact ⟨p.oam, p.oamAddress, rfl⟩
  | cons d ds ih =>
      obtain ⟨oam, oamAddress, h⟩ := ih (p.writeOamByte d)
      exact ⟨oam, oamAddress, h⟩

/-- A dot paints, moves the beam, and starts or ends the vertical blank. -/
theorem exists_tick_eq :
    ∃ frame status beam nmiRequested,
      p.tick.2 = { p with frame, status, beam, nmiRequested } := by
  have hstray : ∃ frame, p.strayDot.2 = { p with frame } := by
    unfold strayDot
    dsimp only
    split
    · exact ⟨p.frame, rfl⟩
    · split
      · exact ⟨p.frame, rfl⟩
      · split
        · exact ⟨_, rfl⟩
        · exact ⟨p.frame, rfl⟩
  unfold tick
  cases p.beam.event with
  | astray =>
      obtain ⟨frame, h⟩ := hstray
      exact ⟨frame, p.status, p.beam, p.nmiRequested, h⟩
  | _ => exact ⟨_, _, _, _, rfl⟩

/-- Neither do many dots touch anything else. -/
theorem exists_tickTimes_eq (n : Nat) :
    ∃ frame status beam nmiRequested,
      (p.tickTimes n).2 = { p with frame, status, beam, nmiRequested } := by
  induction n generalizing p with
  | zero => exact ⟨p.frame, p.status, p.beam, p.nmiRequested, rfl⟩
  | succ n ih =>
      obtain ⟨frame, status, beam, nmi, htick⟩ := p.exists_tick_eq
      rw [tickTimes]
      split
      · rename_i heq
        rw [heq] at htick
        exact ⟨frame, status, beam, nmi, htick⟩
      · rename_i heq
        rw [heq] at htick
        cases htick
        exact ih _

/-! ### What is read -/

/-- Palette entries are read at once, all other bytes one read late. -/
theorem fst_readData :
    p.readData.1 = if 0x3F00 ≤ p.videoAddress then p.memory.read p.videoAddress
      else p.readBuffer := by
  unfold readData
  dsimp only
  split <;> rfl

theorem fst_readAt_toInt (h : p.readFault? r = none) :
    (p.readAt r.toInt).1 = .ok (p.read r).1 := by
  rw [readAt, Register.ofInt?_toInt]
  dsimp only
  rw [h]

end

end Famicom.Ppu
