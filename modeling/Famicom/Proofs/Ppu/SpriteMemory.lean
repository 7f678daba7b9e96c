import Famicom.Proofs.Ppu.Access

/-! # Bytes for sprite memory

Sprite memory has an address of its own, a byte that moves on with each byte stored; after the highest
cell comes the lowest.  So up to 256 bytes stored one after the other lie in different cells, wherever
the address stood (`Ppu.get_writeOam`), and after 256 of them the address is back where it was
(`Ppu.oamAddress_writeOam`).

A transfer stores its bytes past the register, but leaves the unit as if a program had written them to
the register one by one (`Ppu.writeOam_eq_foldl`). -/

namespace Famicom.Ppu

section
variable (p : Ppu)

/-- To store bytes is to write them to the register of sprite memory. -/
theorem writeOam_eq_foldl (data : List Byte) :
    p.writeOam data = data.foldl (fun p d => (p.writeAt 0x2004 d.toNat).2) p := by
  have hwrite : (fun (p : Ppu) (d : Byte) => (p.writeAt 0x2004 d.toNat).2) = writeOamByte := by
    funext p d
    have hd : BitVec.ofInt 8 (d.toNat : Int) = d := by simp
    refine (p.snd_writeAt_toInt .oamData d.toNat).trans ?_
    rw [hd]
    rfl
  rw [hwrite, writeOam]

/-- Whether a transfer is requested makes no difference. -/
theorem writeOam_takeTransfer (data : List Byte) :
    p.takeTransfer.2.writeOam data = (p.writeOam data).takeTransfer.2 := by
  unfold writeOam
  induction data generalizing p with
  | nil => rfl
  | cons d ds ih => exact ih (p.writeOamByte d)

theorem oamAddress_writeOam (data : List Byte) :
    (p.writeOam data).oamAddress = p.oamAddress + BitVec.ofNat 8 data.length := by
  induction data generalizing p with
  | nil => exact (BitVec.add_zero _).symm
  | cons d ds ih =>
      show ((p.writeOamByte d).writeOam ds).oamAddress = _
      rw [ih, List.length_cons, BitVec.ofNat_add]
      show p.oamAddress + 1 + _ = _
      bv_omega

variable {p}

/-- A cell that is not reached keeps its byte. -/
theorem get_writeOam_of_ne {data : List Byte} {x : Byte}
    (h : ∀ j < data.length, p.oamAddress + BitVec.ofNat 8 j ≠ x) :
    (p.writeOam data).oam.get x.toFin = p.oam.get x.toFin := by
  induction data generalizing p with
  | nil => rfl
  | cons d ds ih =>
      have hrest : ∀ j < ds.length, p.oamAddress + 1 + BitVec.ofNat 8 j ≠ x := by
        intro j hj hx
        refine h (j + 1) (Nat.succ_lt_succ hj) ?_
        rw [← hx, BitVec.ofNat_add]
        bv_omega
      have hfirst : p.oamAddress.toFin ≠ x.toFin := by
        intro hx
        refine h 0 (Nat.succ_pos _) ?_
        rw [BitVec.add_zero]
        exact BitVec.toFin_inj.mp hx
      show ((p.writeOamByte d).writeOam ds).oam.get x.toFin = _
      rw [ih (p := p.writeOamByte d) hrest]
      exact Memory.get_set_ne _ d hfirst

/-- Each byte is in its cell, counted from where the address stood. -/
theorem get_writeOam {data : List Byte} (hlength : data.length ≤ 256) {i : Nat}
    (hi : i < data.length) :
    (p.writeOam data).oam.get (p.oamAddress + BitVec.ofNat 8 i).toFin = data[i] := by
  induction data generalizing p i with
  | nil => cases hi
  | cons d ds ih =>
      rw [List.length_cons] at hlength
      show ((p.writeOamByte d).writeOam ds).oam.get _ = _
      cases i with
      | zero =>
          have hrest : ∀ j < ds.length,
              p.oamAddress + 1 + BitVec.ofNat 8 j ≠ p.oamAddress + BitVec.ofNat 8 0 := by
            intro j hj hx
            bv_omega
          rw [get_writeOam_of_ne (p := p.writeOamByte d) hrest, BitVec.add_zero]
          exact Memory.get_set_self _ _ d
      | succ i =>
          have hcell : p.oamAddress + BitVec.ofNat 8 (i + 1) =
              (p.writeOamByte d).oamAddress + BitVec.ofNat 8 i := by
            show _ = p.oamAddress + 1 + BitVec.ofNat 8 i
            rw [BitVec.ofNat_add]
            bv_omega
          rw [hcell, ih (by omega) (Nat.lt_of_succ_lt_succ hi), List.getElem_cons_succ]

end

end Famicom.Ppu
