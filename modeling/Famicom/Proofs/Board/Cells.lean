import Famicom.Proofs.Checked
import Famicom.Proofs.Ppu.Picture

/-! # The cells of the board

Apart from the registers of the picture unit, the targets of the board are cells
(`Board.Target.IsCell`): reading a cell changes nothing, and what is written to one is read back
from all targets that show the same cell (`Board.SameCell`) and from no others
(`Board.read_write_of_sameCell`, `Board.read_write_of_not_sameCell`).  Two targets that differ show
the same cell only in the program memory of a cartridge with a single bank.

Whether there is a second bank depends on the last image that the board has taken, whatever else has
been done with it (`Board.Use`, `Board.isSplit_foldl`). -/

namespace Famicom

/-! ### Cartridges with two banks -/

namespace Cartridge

/-- The cartridge has two banks. -/
def IsSplit : Cartridge → Prop
  | mirrored _ => False
  | split _ _ => True

theorem isSplit_set (c : Cartridge) (i : Fin 0x8000) (d : Byte) :
    (c.set i d).IsSplit ↔ c.IsSplit := by
  cases c with
  | mirrored bank => exact Iff.rfl
  | split lower upper =>
      by_cases hi : i.val < 0x4000 <;> simp [set, hi, IsSplit]

theorem sameCell_iff_of_isSplit {c : Cartridge} (h : c.IsSplit) (i j : Fin 0x8000) :
    c.SameCell i j ↔ i = j := by
  cases c with
  | mirrored bank => exact h.elim
  | split lower upper => exact Iff.rfl

end Cartridge

namespace Board

/-! ### Cells -/

/-- The target is a cell, and no register of the picture unit. -/
def Target.IsCell : Target → Prop
  | .register _ => False
  | .ram _ | .io _ | .saveRam _ | .program _ => True

/-- Two targets show the same cell. -/
def SameCell (b : Board) : Target → Target → Prop
  | .program i, .program j => b.cartridge.SameCell i j
  | t, t' => t = t'

section cells
variable (b : Board) {t t' : Target} (d : Byte)

theorem sameCell_iff_of_isSplit (h : b.cartridge.IsSplit) : b.SameCell t t' ↔ t = t' := by
  cases t with
  | program i =>
      cases t' with
      | program j =>
          rw [Target.program.injEq]
          exact Cartridge.sameCell_iff_of_isSplit h i j
      | _ => exact Iff.rfl
  | _ => exact Iff.rfl

theorem readFault?_of_isCell (h : t.IsCell) : b.readFault? t = none := by
  cases t with
  | register r => exact h.elim
  | _ => rfl

theorem writeFault?_of_isCell (h : t.IsCell) : b.writeFault? t = none := by
  cases t with
  | register r => exact h.elim
  | _ => rfl

theorem read_of_isCell (h : t.IsCell) : b.read t = ((b.read t).1, b) := by
  cases t with
  | register r => exact h.elim
  | _ => rfl

theorem ppu_write_of_isCell (h : t.IsCell) : (b.write t d).ppu = b.ppu := by
  cases t with
  | register r => exact h.elim
  | _ => rfl

theorem read_write_of_sameCell (h : t.IsCell) (hs : b.SameCell t t') :
    ((b.write t d).read t').1 = d := by
  cases t with
  | register r => exact h.elim
  | program i =>
      cases t' with
      | program j => exact Cartridge.get_set_of_sameCell d hs
      | _ => cases hs
  | _ =>
      cases hs
      exact Memory.get_set_self _ _ d

theorem read_write_of_not_sameCell (h : t.IsCell) (h' : t'.IsCell) (hs : ¬ b.SameCell t t') :
    ((b.write t d).read t').1 = (b.read t').1 := by
  have hne : t ≠ t' := by
    rintro rfl
    refine hs ?_
    cases t with
    | program i =>
        show b.cartridge.SameCell i i
        cases b.cartridge <;> rfl
    | _ => rfl
  cases t with
  | register r => exact h.elim
  | program i =>
      cases t' with
      | register r => exact h'.elim
      | program j => exact Cartridge.get_set_of_not_sameCell d hs
      | _ => rfl
  | ram i =>
      cases t' with
      | register r => exact h'.elim
      | ram j => exact Memory.get_set_ne _ _ fun hi => hne (congrArg _ hi)
      | _ => rfl
  | io i =>
      cases t' with
      | register r => exact h'.elim
      | io j => exact Memory.get_set_ne _ _ fun hi => hne (congrArg _ hi)
      | _ => rfl
  | saveRam i =>
      cases t' with
      | register r => exact h'.elim
      | saveRam j => exact Memory.get_set_ne _ _ fun hi => hne (congrArg _ hi)
      | _ => rfl

theorem isSplit_read (t : Target) : (b.read t).2.cartridge.IsSplit ↔ b.cartridge.IsSplit := by
  cases t <;> exact Iff.rfl

theorem isSplit_write (t : Target) :
    (b.write t d).cartridge.IsSplit ↔ b.cartridge.IsSplit := by
  cases t with
  | program i => exact b.cartridge.isSplit_set i d
  | _ => exact Iff.rfl

end cells

/-! ### Uses -/

/-- What is done with a board from outside. -/
inductive Use where
  | insert (image : Array Byte)
  | read (address : Int)
  | write (address data : Int)
  /-- The picture unit is used beside the board. -/
  | picture (use : Ppu.Use)
deriving Repr, DecidableEq

/-- The board after a use, which may have been refused. -/
def after (b : Board) : Use → Board
  | .insert image => (b.insert image).2
  | .read address => (b.readAt address).2
  | .write address data => (b.writeAt address data).2
  | .picture use => { b with ppu := b.ppu.after use }

/-- What a use of the board yields. -/
def answer (b : Board) : Use → Except Fault Ppu.Reply
  | .insert image => (b.insert image).1.map fun _ => .nothing
  | .read address => (b.readAt address).1.map .byte
  | .write address data => (b.writeAt address data).1.map fun _ => .nothing
  | .picture use => b.ppu.answer use

/-- What each of some uses yields, with the board after it. -/
def transcript : Board → List Use → List (Except Fault Ppu.Reply × Board)
  | _, [] => []
  | b, u :: us => (b.answer u, b.after u) :: (b.after u).transcript us

/-- The size of the image in the cartridge after a use, if it was `n` before. -/
def Use.imageSize (n : Nat) : Use → Nat
  | insert image => if image.size ≤ 0x8000 then image.size else n
  | read _ | write _ _ | picture _ => n

/-- The size of the last image that was taken, or zero if there was none. -/
def lastImageSize (us : List Use) : Nat := us.foldl Use.imageSize 0

theorem cartridge_insert (b : Board) {image : Array Byte} (hlong : 0x4000 < image.size)
    (hfits : image.size ≤ 0x8000) :
    (b.insert image).2.cartridge =
      .split (Cartridge.bankOf image 0) (Cartridge.bankOf image 0x4000) := by
  obtain ⟨ram, ppu, io, saveRam, cartridge⟩ := b
  simp [insert, Cartridge.ofImage, Nat.not_lt.mpr hfits, hlong]

theorem isSplit_insert (b : Board) (image : Array Byte) :
    (b.insert image).2.cartridge.IsSplit ↔
      if image.size ≤ 0x8000 then 0x4000 < image.size else b.cartridge.IsSplit := by
  obtain ⟨ram, ppu, io, saveRam, cartridge⟩ := b
  by_cases hfits : image.size ≤ 0x8000
  · by_cases hlong : 0x4000 < image.size <;>
      simp [insert, Cartridge.ofImage, Nat.not_lt.mpr hfits, hfits, hlong, Cartridge.IsSplit]
  · simp [insert, Cartridge.ofImage, Nat.lt_of_not_le hfits, hfits]

/-- A use either tells the size of the image, and with it the number of banks, or leaves both. -/
theorem isSplit_after (b : Board) (u : Use) (n : Nat) :
    (u.imageSize n = n ∧ ((b.after u).cartridge.IsSplit ↔ b.cartridge.IsSplit)) ∨
      ((b.after u).cartridge.IsSplit ↔ 0x4000 < u.imageSize n) := by
  cases u with
  | insert image =>
      have h := b.isSplit_insert image
      simp only [Use.imageSize]
      by_cases hfits : image.size ≤ 0x8000
      · rw [if_pos hfits] at h ⊢
        exact Or.inr h
      · rw [if_neg hfits] at h ⊢
        exact Or.inl ⟨rfl, h⟩
  | read address =>
      refine Or.inl ⟨rfl, ?_⟩
      show (b.readAt address).2.cartridge.IsSplit ↔ _
      unfold readAt
      dsimp only
      split
      · exact Iff.rfl
      · exact b.isSplit_read _
  | write address data =>
      refine Or.inl ⟨rfl, ?_⟩
      show (b.writeAt address data).2.cartridge.IsSplit ↔ _
      unfold writeAt
      dsimp only
      split
      · exact Iff.rfl
      · exact Iff.rfl
      · exact b.isSplit_write _ _
  | picture use => exact Or.inl ⟨rfl, Iff.rfl⟩

/-- A board whose last image is longer than a bank has two of them. -/
theorem isSplit_foldl (b : Board) {us : List Use} (h : 0x4000 < lastImageSize us) :
    (us.foldl after b).cartridge.IsSplit := by
  have hall : ∀ (us : List Use) (n : Nat) (b : Board), (0x4000 < n → b.cartridge.IsSplit) →
      0x4000 < us.foldl Use.imageSize n → (us.foldl after b).cartridge.IsSplit := by
    intro us
    induction us with
    | nil => exact fun n b hb hn => hb hn
    | cons u us ih =>
        intro n b hb hn
        refine ih _ _ (fun hu => ?_) hn
        rcases b.isSplit_after u n with ⟨hsame, hafter⟩ | hafter
        · rw [hsame] at hu
          exact hafter.mpr (hb hu)
        · exact hafter.mpr hu
  exact hall us 0 b (fun hn => absurd hn (by decide)) h

end Board

end Famicom
