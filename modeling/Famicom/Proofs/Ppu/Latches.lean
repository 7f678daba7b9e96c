import Famicom.Proofs.Ppu.Access
import Famicom.Proofs.Ppu.Picture

/-! # Two latches side by side

The scroll position and the video address are written in two halves each, and each has a latch that
tells which half comes next.  A program that does not know how far an earlier one has come reads the
status register, which starts both latches anew.

What a latch holds after some writes is a matter of their number and of the last two
(`Latch.toggle_writes`, `Latch.value_writes`).  And which writes a latch gets is decided by the
register alone: all that is done to the picture unit comes down, for each of the latches, to the
values written to its own register (`Ppu.latches_foldl`), unless something else moves the latches, and
there are three such things (`Ppu.Use.SparesLatches`). -/

namespace Famicom

namespace Latch

variable (l : Latch)

/-- The latch after some values have been written; of each the lowest eight bits count. -/
def writes (ds : List Int) : Latch := ds.foldl (fun l d => l.write (d % 256)) l

theorem writes_append (ds es : List Int) : l.writes (ds ++ es) = (l.writes ds).writes es :=
  List.foldl_append

/-- The toggle tells whether the number of writes is odd. -/
theorem toggle_writes (ds : List Int) :
    (l.writes ds).toggle = (l.toggle ^^ decide (ds.length % 2 = 1)) := by
  induction ds generalizing l with
  | nil => exact (Bool.xor_false _).symm
  | cons d ds ih =>
      have hstep : (l.write (d % 256)).toggle = !l.toggle := rfl
      have hparity : (ds.length + 1) % 2 = 1 ↔ ¬ ds.length % 2 = 1 := by omega
      show ((l.write (d % 256)).writes ds).toggle = _
      rw [ih, hstep, List.length_cons, decide_eq_decide.mpr hparity, decide_not, Bool.not_xor,
        Bool.xor_not]

/-- After an even number of writes the value is made of the last two. -/
theorem value_writes {ds : List Int} (hl : l.toggle = false) (heven : ds.length % 2 = 0)
    (high low : Int) :
    (l.writes (ds ++ [high, low])).value = high % 256 * 256 + low % 256 := by
  have htoggle : (l.writes ds).toggle = false := by
    rw [toggle_writes, hl, heven]
    rfl
  rw [writes_append]
  exact value_write_write htoggle (by omega) (by omega)

end Latch

namespace Ppu

/-! ### What is written to a register -/

/-- The value that a use writes to the register with the given address, if it does. -/
def Use.written? (r : Int) : Use → Option Int
  | write a d => if a = r then some d else none
  | tick | read _ | writeOam _ | takeTransfer | reset => none

/-- The values that are written to the register with the given address, in order. -/
def written (r : Int) (us : List Use) : List Int := us.filterMap (Use.written? r)

/-- The latches get from the use what it writes to them, and nothing else happens to them.  That
leaves out what starts them anew, a read of the status register or a reset, and the data register,
every access to which moves the video address on. -/
def Use.SparesLatches : Use → Prop
  | read a => a ≠ 0x2002 ∧ a ≠ 0x2007
  | write a _ => a ≠ 0x2007
  | reset => False
  | tick | writeOam _ | takeTransfer => True

instance : DecidablePred Use.SparesLatches
  | .read a => inferInstanceAs (Decidable (a ≠ 0x2002 ∧ a ≠ 0x2007))
  | .write a _ => inferInstanceAs (Decidable (a ≠ 0x2007))
  | .reset => .isFalse not_false
  | .tick | .writeOam _ | .takeTransfer => .isTrue trivial

/-! ### What a use does to the latches -/

/-- The latches of the scroll position and of the video address. -/
def latches (p : Ppu) : Latch × Latch := (p.scroll, p.address)

section
variable (p : Ppu)

theorem latches_tick : p.tick.2.latches = p.latches := by
  obtain ⟨frame, status, beam, nmi, h⟩ := p.exists_tick_eq
  rw [h]
  rfl

theorem latches_writeOam (data : List Byte) : (p.writeOam data).latches = p.latches := by
  obtain ⟨oam, oamAddress, h⟩ := p.exists_writeOam_eq data
  rw [h]
  rfl

/-- A register takes the lowest eight bits of what is written to it. -/
theorem toNat_datum (d : Int) : ((BitVec.ofInt 8 d).toNat : Int) = d % 256 := by
  rw [BitVec.toNat_ofInt]
  omega

variable {p} {u : Use}

/-- **What a use does to the latches.** -/
theorem latches_after (h : u.SparesLatches) :
    (p.after u).latches = (p.scroll.writes (u.written? 0x2005).toList,
      p.address.writes (u.written? 0x2006).toList) := by
  cases u with
  | tick => exact p.latches_tick
  | read a =>
      obtain ⟨hstatus, hdata⟩ := h
      show (p.readAt a).2.latches = p.latches
      rcases Register.ofInt?_cases a with hnone | ⟨r, rfl⟩
      · rw [p.readAt_of_none hnone]
      · rw [p.snd_readAt_toInt]
        cases r with
        | status => exact absurd rfl hstatus
        | data => exact absurd rfl hdata
        | _ => rfl
  | write a d =>
      show (p.writeAt a d).2.latches = _
      rcases Register.ofInt?_cases a with hnone | ⟨r, rfl⟩
      · have hscroll : a ≠ 0x2005 := by
          rintro rfl
          cases hnone
        have haddress : a ≠ 0x2006 := by
          rintro rfl
          cases hnone
        rw [p.writeAt_of_none hnone, Use.written?, Use.written?, if_neg hscroll, if_neg haddress]
        rfl
      · rw [p.snd_writeAt_toInt]
        cases r with
        | scroll =>
            show (p.scroll.write (BitVec.ofInt 8 d).toNat, p.address) = _
            rw [toNat_datum]
            rfl
        | address =>
            show (p.scroll, p.address.write (BitVec.ofInt 8 d).toNat) = _
            rw [toNat_datum]
            rfl
        | data => exact absurd rfl h
        | _ => rfl
  | writeOam data => exact p.latches_writeOam data
  | takeTransfer => rfl
  | reset => exact h.elim

/-- **Each latch follows its own register.** -/
theorem latches_foldl {us : List Use} (h : ∀ u ∈ us, u.SparesLatches) :
    (us.foldl after p).latches =
      (p.scroll.writes (written 0x2005 us), p.address.writes (written 0x2006 us)) := by
  induction us generalizing p with
  | nil => rfl
  | cons u us ih =>
      have hcons : ∀ r, written r (u :: us) = (u.written? r).toList ++ written r us := by
        intro r
        rw [written, List.filterMap_cons]
        cases u.written? r <;> rfl
      obtain ⟨hscroll, haddress⟩ := Prod.mk.inj (latches_after (p := p) (h u (by simp)))
      rw [List.foldl_cons, ih fun v hv => h v (by simp [hv]), hscroll, haddress, hcons, hcons,
        Latch.writes_append, Latch.writes_append]

end

/-- **Two latches that do not disturb each other.**  Let the status register be read, in whatever state
the picture unit is, and then anything be done with it but to read the status register again, to
use the data register or to reset it.  The toggle of each latch is the parity of the writes to its
own register.  If their number is even and not zero, the value is made of the lowest eight bits of
the last two, whatever has been written to the other latch in between. -/
theorem latches_follow_writes (p : Ppu) {us : List Use} (h : ∀ u ∈ us, u.SparesLatches) :
    let q := us.foldl after (p.after (.read 0x2002))
    q.address.toggle = decide ((written 0x2006 us).length % 2 = 1) ∧
      q.scroll.toggle = decide ((written 0x2005 us).length % 2 = 1) ∧
      (∀ ds high low, written 0x2006 us = ds ++ [high, low] → ds.length % 2 = 0 →
        q.videoAddress = (high % 256 * 256 + low % 256) % 0x4000) ∧
      ∀ ds high low, written 0x2005 us = ds ++ [high, low] → ds.length % 2 = 0 →
        q.scroll.value = high % 256 * 256 + low % 256 := by
  intro q
  let r := p.after (.read 0x2002)
  have hr : r = p.readStatus.2 := p.snd_readAt_toInt .status
  have hscroll₀ : r.scroll.toggle = false := by rw [hr]; rfl
  have haddress₀ : r.address.toggle = false := by rw [hr]; rfl
  obtain ⟨hscroll, haddress⟩ : q.scroll = r.scroll.writes (written 0x2005 us) ∧
      q.address = r.address.writes (written 0x2006 us) := Prod.mk.inj (latches_foldl h)
  refine ⟨?_, ?_, ?_, ?_⟩
  · rw [haddress, Latch.toggle_writes, haddress₀, Bool.false_xor]
  · rw [hscroll, Latch.toggle_writes, hscroll₀, Bool.false_xor]
  · intro ds high low hds heven
    rw [videoAddress, haddress, hds, Latch.value_writes _ haddress₀ heven]
  · intro ds high low hds heven
    rw [hscroll, hds, Latch.value_writes _ hscroll₀ heven]

/-- The two halves of an address, with writes to the other latch around them, on a unit whose latches
both stood at the low half. -/
theorem latches_follow_writes_interleaved :
    let p : Ppu := { scroll := { toggle := true }, address := { toggle := true } }
    let us : List Use :=
      [.write 0x2006 0x121, .write 0x2005 0x07, .tick, .write 0x2006 0x08, .write 0x2000 0x80]
    let q := us.foldl after (p.after (.read 0x2002))
    (∀ u ∈ us, u.SparesLatches) ∧ q.videoAddress = 0x2108 ∧ q.address.toggle = false ∧
      q.scroll.toggle = true := by
  intro p us q
  have hus : ∀ u ∈ us, u.SparesLatches := by decide
  obtain ⟨haddress, hscroll, hvalue, -⟩ := latches_follow_writes p hus
  exact ⟨hus, hvalue [] 0x121 0x08 rfl rfl, haddress.trans (by decide), hscroll.trans (by decide)⟩

end Ppu

end Famicom
