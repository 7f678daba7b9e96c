import Famicom.Proofs.Board.Cells

/-! # Quiet addresses

A read may change the board only where the eight registers of the picture unit are shown.  All other
addresses are *quiet* (`Board.Quiet`): a read there is granted and changes nothing
(`Board.bus_read_of_quiet`), be it of a cell or of the register that starts a transfer.  Page zero,
the stack and the vectors are quiet, and their targets are cells.

`Board.registerAddress?` says in numbers which register an address leads to. -/

namespace Famicom

namespace Board

/-- The address is not one at which the eight registers are shown. -/
def Quiet (a : Word) : Prop := ¬ (0x2000 ≤ a.toNat ∧ a.toNat < 0x4000)

instance (a : Word) : Decidable (Quiet a) := inferInstanceAs (Decidable (¬ _))

/-- The byte that a read of an address yields. -/
def shown (b : Board) (a : Word) : Byte := (b.read (decode a)).1

/-- The address of the register that an address leads to, if it leads to one. -/
def registerAddress? (a : Word) : Option Int :=
  if 0x2000 ≤ a.toNat ∧ a.toNat < 0x4000 then some (0x2000 + (a.toNat - 0x2000) % 8)
  else if a.toNat = 0x4014 then some 0x4014
  else none

section
variable (b : Board) {a : Word}

theorem bus_read_of_quiet (h : Quiet a) :
    Bus.readFault? b a = none ∧ Bus.read b a = (b.shown a, b) := by
  show b.readFault? (decode a) = none ∧ b.read (decode a) = ((b.read (decode a)).1, b)
  have ht := leadsTo_decode a
  generalize decode a = t at ht ⊢
  cases ht with
  | register h₁ h₂ r hr => exact absurd ⟨h₁, h₂⟩ h
  | oamDma h₁ =>
      have hf : b.ppu.readFault? .oamDma = none := by simp [Ppu.readFault?, Ppu.Register.writeOnly]
      exact ⟨hf, rfl⟩
  | _ => exact ⟨rfl, rfl⟩

theorem registerAddress?_of_register {r : Ppu.Register} (h : decode a = .register r) :
    registerAddress? a = some r.toInt := by
  have ht := leadsTo_decode a
  rw [h] at ht
  unfold registerAddress?
  cases ht with
  | register h₁ h₂ _ hr => rw [if_pos ⟨h₁, h₂⟩, hr]
  | oamDma h₁ =>
      rw [if_neg (by omega), if_pos h₁]
      rfl

theorem registerAddress?_of_isCell (h : (decode a).IsCell) : registerAddress? a = none := by
  have ht := leadsTo_decode a
  unfold registerAddress?
  generalize decode a = t at h ht
  cases ht with
  | register _ _ _ _ => exact h.elim
  | oamDma _ => exact h.elim
  | ram _ _ _ | io _ _ _ _ _ | saveRam _ _ _ _ | program _ _ _ =>
      rw [if_neg (by omega), if_neg (by omega)]

/-- An address that leads to no register of the picture unit is that of a cell. -/
theorem isCell_or_register (a : Word) : (decode a).IsCell ∨ ∃ r, decode a = .register r := by
  cases decode a with
  | register r => exact Or.inr ⟨r, rfl⟩
  | _ => exact Or.inl trivial

theorem registerAddress?_eq_none_iff : registerAddress? a = none ↔ (decode a).IsCell := by
  constructor
  · intro h
    rcases isCell_or_register a with hcell | ⟨r, hr⟩
    · exact hcell
    · rw [registerAddress?_of_register hr] at h
      cases h
  · exact registerAddress?_of_isCell

end

/-! ### Page zero, the stack and the vectors -/

theorem isCell_of_lt {a : Word} (h : a.toNat < 0x2000) : (decode a).IsCell := by
  apply registerAddress?_eq_none_iff.mp
  rw [registerAddress?, if_neg (by omega), if_neg (by omega)]

theorem toNat_zeroPage_lt (b : Byte) : (Word.zeroPage b).toNat < 0x100 := by
  have hlt := b.isLt
  rw [Word.zeroPage, Word.toNat_ofBytes]
  show 0 * 256 + b.toNat < 0x100
  omega

theorem isCell_zeroPage (b : Byte) : (decode (.zeroPage b)).IsCell := by
  have hlt := toNat_zeroPage_lt b
  exact isCell_of_lt (by omega)

theorem quiet_zeroPage (b : Byte) : Quiet (.zeroPage b) := by
  have hlt := toNat_zeroPage_lt b
  rintro ⟨h, -⟩
  omega

theorem nextInPage_zeroPage (b : Byte) : (Word.zeroPage b).nextInPage = .zeroPage (b + 1) := by
  simp [Word.nextInPage, Word.zeroPage]

theorem isCell_stackCell (sp : Byte) : (decode (.stackCell sp)).IsCell := by
  have hlt := sp.isLt
  have hsp : (Word.stackCell sp).toNat = 1 * 256 + sp.toNat := Word.toNat_ofBytes 1 sp
  exact isCell_of_lt (by omega)

end Board

namespace Program

variable (cpu : Cpu) (b : Board)

theorem run_fetch_of_quiet (h : Board.Quiet cpu.pc) :
    fetch.run cpu b =
      ⟨.ok (b.shown cpu.pc), { cpu with pc := cpu.pc + 1 }, b,
        [.fetch cpu.pc (b.shown cpu.pc)]⟩ := by
  obtain ⟨hf, hr⟩ := b.bus_read_of_quiet h
  show Activity.run (.fetch cpu _) b = _
  rw [Activity.run, hf, hr]
  rfl

theorem run_read_of_quiet {a : Word} (h : Board.Quiet a) :
    (read a).run cpu b = ⟨.ok (b.shown a), cpu, b, [.read a (b.shown a)]⟩ := by
  obtain ⟨hf, hr⟩ := b.bus_read_of_quiet h
  show Activity.run (.read cpu a _) b = _
  rw [Activity.run, hf, hr]
  rfl

end Program

end Famicom
