import Famicom.Proofs.Ppu.Simulation

/-! # The picture unit stays in range

The picture unit on unbounded integers could leave the range of its registers, put its beam outside
the frame, or run into the checks of its buffers and of the video memory.  It does none of this,
since it does what the picture unit on bytes does (`Unbounded.PictureUnit.perform_use`).  What that
one keeps as an integer of any size, it has to keep in range itself: the values of the latches and
the position of the beam (`Ppu.InRange`). -/

namespace Famicom

/-! ### Latches and beam -/

/-- The latch holds a word. -/
def Latch.InRange (l : Latch) : Prop := 0 ≤ l.value ∧ l.value ≤ 0xFFFF

theorem Latch.inRange_zero : InRange {} := ⟨Int.le_refl 0, by decide⟩

/-- A latch takes a byte for one half and the other half as it is. -/
theorem Latch.inRange_write (l : Latch) (d : Byte) : (l.write d.toNat).InRange := by
  have hd := d.isLt
  unfold InRange write
  dsimp only
  split
  · rw [withLow_of_byte _ (by omega) (by omega)]
    omega
  · unfold withHigh
    omega

namespace Ppu

/-- What is not kept in range by its type is in range. -/
structure InRange (p : Ppu) : Prop where
  beam : p.beam.InFrame
  scroll : p.scroll.InRange
  address : p.address.InRange

theorem inRange_advanceAddress (p : Ppu) : p.advanceAddress.address.InRange := by
  show 0 ≤ (_ : Int) % 0x4000 ∧ (_ : Int) % 0x4000 ≤ 0xFFFF
  omega

variable {p : Ppu}

theorem latches_inRange_read (h : p.InRange) (r : Register) :
    (p.read r).2.scroll.InRange ∧ (p.read r).2.address.InRange := by
  cases r with
  | status => exact ⟨h.scroll, h.address⟩
  | data =>
      show p.readData.2.scroll.InRange ∧ p.readData.2.address.InRange
      rw [snd_readData]
      exact ⟨h.scroll, inRange_advanceAddress _⟩
  | _ => exact ⟨h.scroll, h.address⟩

theorem latches_inRange_write (h : p.InRange) (r : Register) (d : Byte) :
    (p.write r d).scroll.InRange ∧ (p.write r d).address.InRange := by
  cases r with
  | scroll => exact ⟨Latch.inRange_write _ d, h.address⟩
  | address => exact ⟨h.scroll, Latch.inRange_write _ d⟩
  | data => exact ⟨h.scroll, inRange_advanceAddress _⟩
  | _ => exact ⟨h.scroll, h.address⟩

/-- **One more use** leaves the unit in range. -/
theorem InRange.after (h : p.InRange) (x : Use) : (p.after x).InRange := by
  have hlatches : (p.after x).scroll.InRange ∧ (p.after x).address.InRange := by
    cases x with
    | tick =>
        obtain ⟨frame, status, beam, nmi, htick⟩ := p.exists_tick_eq
        rw [Ppu.after, htick]
        exact ⟨h.scroll, h.address⟩
    | read a =>
        rcases Register.ofInt?_cases a with hnone | ⟨r, rfl⟩
        · rw [Ppu.after, p.readAt_of_none hnone]
          exact ⟨h.scroll, h.address⟩
        · rw [Ppu.after, p.snd_readAt_toInt]
          exact latches_inRange_read h r
    | write a d =>
        rcases Register.ofInt?_cases a with hnone | ⟨r, rfl⟩
        · rw [Ppu.after, p.writeAt_of_none hnone]
          exact ⟨h.scroll, h.address⟩
        · rw [Ppu.after, p.snd_writeAt_toInt]
          exact latches_inRange_write h r _
    | writeOam data =>
        obtain ⟨oam, oamAddress, hdata⟩ := p.exists_writeOam_eq data
        rw [Ppu.after, hdata]
        exact ⟨h.scroll, h.address⟩
    | takeTransfer => exact ⟨h.scroll, h.address⟩
    | reset => exact ⟨Latch.inRange_zero, Latch.inRange_zero⟩
  exact ⟨inFrame_after h.beam x, hlatches.1, hlatches.2⟩

theorem InRange.foldl (h : p.InRange) (xs : List Use) : (xs.foldl Ppu.after p).InRange := by
  induction xs generalizing p with
  | nil => exact h
  | cons x xs ih => exact ih (h.after x)

end Ppu

/-! ### The unit on unbounded integers -/

namespace Unbounded.PictureUnit

open Ppu (Register HasRegister)

/-- All that the unit keeps is in range. -/
structure InRange (u : PictureUnit) : Prop where
  control : 0 ≤ u.control ∧ u.control ≤ 0xFF
  mask : 0 ≤ u.mask ∧ u.mask ≤ 0xFF
  status : 0 ≤ u.status ∧ u.status ≤ 0xFF
  oamAddress : 0 ≤ u.oamAddress ∧ u.oamAddress ≤ 0xFF
  readBuffer : 0 ≤ u.readBuffer ∧ u.readBuffer ≤ 0xFF
  oamDma : 0 ≤ u.oamDma ∧ u.oamDma ≤ 0xFF
  transferRequest : ∀ page ∈ u.transferRequest, 0 ≤ page ∧ page ≤ 0xFF
  scroll : u.scroll.InRange
  address : u.address.InRange
  videoAddress : 0 ≤ u.videoAddress ∧ u.videoAddress ≤ 0x3FFF
  length_oam : u.oam.length = 0x100
  oam : ∀ n ∈ u.oam.cells, 0 ≤ n ∧ n ≤ 0xFF
  length_frame : u.frame.length = 184320
  frame : ∀ n ∈ u.frame.cells, 0 ≤ n ∧ n ≤ 0xFF
  scanline : 0 ≤ u.beam.scanline ∧ u.beam.scanline ≤ 261
  dot : 0 ≤ u.beam.dot ∧ u.beam.dot ≤ 340

theorem toNat_byte (d : Byte) : 0 ≤ (d.toNat : Int) ∧ (d.toNat : Int) ≤ 0xFF := by
  have h := d.isLt
  omega

theorem mem_ofBytes {ds : List Byte} {n : Int} (h : n ∈ (Buffer.ofBytes ds).cells) :
    0 ≤ n ∧ n ≤ 0xFF := by
  obtain ⟨d, -, rfl⟩ := List.mem_map.mp h
  exact toNat_byte d

theorem inRange_numbers {p : Ppu} (h : p.InRange) : p.numbers.InRange := by
  have hbeam := h.beam
  simp only [Beam.InFrame, Beam.linesPerFrame, Beam.dotsPerLine] at hbeam
  refine ⟨toNat_byte _, toNat_byte _, toNat_byte _, toNat_byte _, toNat_byte _, toNat_byte _, ?_,
    h.scroll, h.address, ?_, p.oam.length_buffer, fun n => mem_ofBytes, p.frame.length_buffer,
    fun n => mem_ofBytes, ?_, ?_⟩
  · intro page hpage
    obtain ⟨d, -, rfl⟩ := Option.mem_map.mp hpage
    exact toNat_byte d
  · unfold videoAddress
    omega
  · show 0 ≤ p.beam.scanline ∧ p.beam.scanline ≤ 261
    omega
  · show 0 ≤ p.beam.dot ∧ p.beam.dot ≤ 340
    omega

theorem exists_byte {n : Int} (h : 0 ≤ n ∧ n ≤ 0xFF) : ∃ d : Byte, (d.toNat : Int) = n := by
  refine ⟨BitVec.ofInt 8 n, ?_⟩
  rw [Ppu.toNat_datum]
  omega

theorem exists_bytes {b : Buffer} (h : ∀ n ∈ b.cells, 0 ≤ n ∧ n ≤ 0xFF) :
    ∃ ds : List Byte, Buffer.ofBytes ds = b ∧ ds.length = b.length := by
  have hcells : b.cells.map (fun n => ((BitVec.ofInt 8 n).toNat : Int)) = b.cells := by
    refine (List.map_congr_left fun n hn => ?_).trans (List.map_id _)
    have hbyte := h n hn
    rw [Ppu.toNat_datum, id]
    omega
  refine ⟨b.cells.map (BitVec.ofInt 8), ?_, List.length_map _⟩
  rw [Buffer.ofBytes, List.map_map]
  exact congrArg Buffer.mk hcells

theorem exists_memory {b : Buffer} {n : Nat} (hl : b.length = n)
    (h : ∀ n ∈ b.cells, 0 ≤ n ∧ n ≤ 0xFF) : ∃ m : Memory n, m.buffer = b := by
  obtain ⟨ds, hds, hlength⟩ := exists_bytes h
  exact ⟨⟨⟨ds.toArray, hlength.trans hl⟩⟩, hds⟩

theorem exists_pixels {n : Nat} {ds : List Byte} (h : ds.length = n * 3) :
    ∃ ps : List Pixel, ps.length = n ∧ ps.flatMap Pixel.toList = ds := by
  induction n generalizing ds with
  | zero => exact ⟨[], rfl, (List.eq_nil_of_length_eq_zero (by omega)).symm⟩
  | succ n ih =>
      obtain ⟨r, g, b, ds, rfl⟩ : ∃ r g b ds', ds = r :: g :: b :: ds' := by
        match ds, h with
        | r :: g :: b :: ds', _ => exact ⟨r, g, b, ds', rfl⟩
        | [], h | [_], h | [_, _], h => simp only [List.length_cons, List.length_nil] at h; omega
      have hds : ds.length = n * 3 := by
        simp only [List.length_cons] at h
        omega
      obtain ⟨ps, hlength, hps⟩ := ih hds
      refine ⟨⟨r, g, b⟩ :: ps, congrArg (· + 1) hlength, ?_⟩
      rw [List.flatMap_cons, hps]
      rfl

theorem exists_frame {b : Buffer} (hl : b.length = 184320)
    (h : ∀ n ∈ b.cells, 0 ≤ n ∧ n ≤ 0xFF) : ∃ f : Frame, f.buffer = b := by
  obtain ⟨ds, hds, hlength⟩ := exists_bytes h
  have hpixels : ds.length = 256 * 240 * 3 := hlength.trans hl
  obtain ⟨ps, hcount, hps⟩ := exists_pixels hpixels
  refine ⟨⟨⟨ps.toArray, hcount⟩⟩, ?_⟩
  show Buffer.ofBytes (ps.flatMap Pixel.toList) = b
  rw [hps, hds]

/-- A unit in range is one that keeps bytes. -/
theorem InRange.exists_ppu {u : PictureUnit} (h : u.InRange) :
    ∃ p : Ppu, p.numbers = u ∧ p.InRange := by
  obtain ⟨control, hcontrol⟩ := exists_byte h.control
  obtain ⟨mask, hmask⟩ := exists_byte h.mask
  obtain ⟨status, hstatus⟩ := exists_byte h.status
  obtain ⟨oamAddress, hoamAddress⟩ := exists_byte h.oamAddress
  obtain ⟨readBuffer, hreadBuffer⟩ := exists_byte h.readBuffer
  obtain ⟨oamDma, hoamDma⟩ := exists_byte h.oamDma
  obtain ⟨oam, hoam⟩ := exists_memory h.length_oam h.oam
  obtain ⟨frame, hframe⟩ := exists_frame h.length_frame h.frame
  have hrequest : ∃ page : Option Byte,
      page.map (fun d => (d.toNat : Int)) = u.transferRequest := by
    cases hu : u.transferRequest with
    | none => exact ⟨none, rfl⟩
    | some n =>
        obtain ⟨d, hd⟩ := exists_byte (h.transferRequest n hu)
        exact ⟨some d, congrArg some hd⟩
  obtain ⟨transferRequest, htransferRequest⟩ := hrequest
  let p : Ppu :=
    { strict := u.strict, memory := u.memory, oam, frame, control, mask, status, oamAddress,
      scroll := u.scroll, address := u.address, readBuffer, oamDma, transferRequest,
      beam := u.beam, nmiRequested := u.nmiRequested }
  have hbeam : p.beam.InFrame := by
    have hscanline := h.scanline
    have hdot := h.dot
    show 0 ≤ u.beam.scanline ∧ u.beam.scanline < 262 ∧ 0 ≤ u.beam.dot ∧ u.beam.dot < 341
    omega
  refine ⟨p, ?_, hbeam, h.scroll, h.address⟩
  rw [Ppu.numbers, hcontrol, hmask, hstatus, hoamAddress, hreadBuffer, hoamDma, hoam, hframe,
    htransferRequest]

/-! ### Runs -/

theorem foldl_after_numbers {p : Ppu} (h : p.InRange) (xs : List Ppu.Use) :
    xs.foldl after p.numbers = (xs.foldl Ppu.after p).numbers := by
  induction xs generalizing p with
  | nil => rfl
  | cons x xs ih =>
      have hx : after p.numbers x = (p.after x).numbers :=
        congrArg Prod.snd (perform_use p h.beam x)
      rw [List.foldl_cons, hx]
      exact ih (h.after x)

/-- How accesses end: a strict unit refuses two registers to a reader and one to a writer, and apart
from that an access fails just if there is no register at the address. -/
structure Answers (u : PictureUnit) : Prop where
  read_granted : ∀ a, HasRegister a → ¬ (u.strict = true ∧ (a = 0x2005 ∨ a = 0x2006)) →
    ∃ n, ((readRegister a).perform u).1 = .ok n ∧ 0 ≤ n ∧ n ≤ 0xFF
  read_refused : ∀ a, u.strict = true → a = 0x2005 ∨ a = 0x2006 →
    (readRegister a).perform u = (.error (.writeOnlyRegister a), u)
  read_astray : ∀ a, ¬ HasRegister a →
    (readRegister a).perform u = (.error (.invalidRegister a), u)
  write_granted : ∀ a d, HasRegister a → ¬ (u.strict = true ∧ a = 0x2002) →
    ((writeRegister a d).perform u).1 = .ok (d % 0x100)
  write_refused : ∀ a d, u.strict = true → a = 0x2002 →
    (writeRegister a d).perform u = (.error (.readOnlyRegister a), u)
  write_astray : ∀ a d, ¬ HasRegister a →
    (writeRegister a d).perform u = (.error (.invalidRegister a), u)
  tick_granted : (tick.perform u).1 = .ok ()
  writeOam_granted : ∀ data, ((writeOam data).perform u).1 = .ok ()

theorem exists_register {a : Int} (h : HasRegister a) : ∃ r : Register, a = r.toInt :=
  (Register.ofInt?_cases a).resolve_left fun hnone => Register.ofInt?_eq_none_iff.mp hnone h

theorem toInt_of_writeOnly {r : Register} (h : r.writeOnly = true) :
    r.toInt = 0x2005 ∨ r.toInt = 0x2006 := by
  cases r <;> first | exact Or.inl rfl | exact Or.inr rfl | cases h

theorem toInt_of_readOnly {r : Register} (h : r.readOnly = true) : r.toInt = 0x2002 := by
  cases r <;> first | rfl | cases h

theorem read_granted_numbers (p : Ppu) {r : Register}
    (h : ¬ (p.strict = true ∧ r.writeOnly = true)) :
    ∃ n, ((readRegister r.toInt).perform p.numbers).1 = .ok n ∧ 0 ≤ n ∧ n ≤ 0xFF := by
  cases hr : r.writeOnly with
  | false =>
      rw [perform_readRegister_of_readable p hr]
      exact ⟨_, rfl, toNat_byte _⟩
  | true =>
      rw [perform_readRegister_of_writeOnly hr]
      exact ⟨0, if_neg fun hs => h ⟨hs, hr⟩, Int.le_refl 0, by decide⟩

theorem write_granted_numbers (p : Ppu) {r : Register}
    (h : ¬ (p.strict = true ∧ r.readOnly = true)) (d : Int) :
    ((writeRegister r.toInt d).perform p.numbers).1 = .ok (d % 0x100) := by
  have hwrite : (p.writeAt r.toInt d).1 = .ok (BitVec.ofInt 8 d) := by
    cases hr : r.readOnly with
    | false => rw [p.writeAt_of_writable hr]
    | true =>
        rw [p.writeAt_of_readOnly hr]
        exact if_neg fun hs => h ⟨hs, hr⟩
  rw [perform_writeRegister, hwrite, ← Ppu.toNat_datum]
  rfl

theorem answers_numbers {p : Ppu} (h : p.InRange) : p.numbers.Answers where
  read_granted a ha hgranted := by
    obtain ⟨r, rfl⟩ := exists_register ha
    exact read_granted_numbers p fun hr => hgranted ⟨hr.1, toInt_of_writeOnly hr.2⟩
  read_refused a hs ha := by
    obtain ⟨r, hr, rfl⟩ : ∃ r : Register, r.writeOnly = true ∧ a = r.toInt := by
      rcases ha with rfl | rfl
      · exact ⟨.scroll, rfl, rfl⟩
      · exact ⟨.address, rfl, rfl⟩
    rw [perform_readRegister_of_writeOnly hr, if_pos hs]
  read_astray a ha := perform_readRegister_of_none (Register.ofInt?_eq_none_iff.mpr ha) _
  write_granted a d ha hgranted := by
    obtain ⟨r, rfl⟩ := exists_register ha
    exact write_granted_numbers p (fun hr => hgranted ⟨hr.1, toInt_of_readOnly hr.2⟩) d
  write_refused a d hs ha := by
    have hreduced := perform_writeReduced_of_readOnly (r := .status) rfl (d % 0x100) p.numbers
    rw [if_pos hs] at hreduced
    subst ha
    exact Action.perform_bind_of_error hreduced _
  write_astray a d ha :=
    Action.perform_bind_of_error
      (perform_writeReduced_of_none (Register.ofInt?_eq_none_iff.mpr ha) _ _) _
  tick_granted := by
    rw [perform_tick p h.beam, Ppu.tick_of_inFrame h.beam]
  writeOam_granted data := by
    rw [perform_writeOam]

/-- **The picture unit stays in range.**  It computes on unbounded integers and against all checks.
A new one is in range, whatever the video memory, and from one in range any uses lead to one in
range, those that fail included, and to one whose accesses end as they ought to.  Such a unit is one
that keeps bytes: after the same uses of that one it is so again, and the next use ends as it does
there. -/
theorem stays_in_range :
    (∀ strict memory, (create strict memory).InRange) ∧
      ∀ u : PictureUnit, u.InRange → ∃ p : Ppu, p.numbers = u ∧ ∀ xs : List Ppu.Use,
        let w := xs.foldl after u
        let q := xs.foldl Ppu.after p
        w.InRange ∧ w.Answers ∧ w = q.numbers ∧
          ∀ x, (use x).perform w = ((q.answer x).map replyNumber, (q.after x).numbers) := by
  refine ⟨fun strict memory => ?_, fun u hu => ?_⟩
  · have hbeam : Beam.InFrame {} := by decide
    rw [create_eq_numbers]
    exact inRange_numbers ⟨hbeam, Latch.inRange_zero, Latch.inRange_zero⟩
  · obtain ⟨p, rfl, hp⟩ := hu.exists_ppu
    refine ⟨p, rfl, fun xs => ?_⟩
    dsimp only
    have hq := hp.foldl xs
    rw [foldl_after_numbers hp]
    exact ⟨inRange_numbers hq, answers_numbers hq, rfl, perform_use _ hq.beam⟩

/-- A strict unit after some uses of which two fail: a read of a register that cannot be read and
one of no register.  The last address is written in one half only. -/
theorem stays_in_range_upload :
    (create true .zero).InRange ∧
      let w := [.write 0x2006 0x3F, .write 0x2006 (-1), .write 0x2007 0x121, .read 0x2005,
        .read 0x4000, .write 0x2006 0x7FF].foldl after (create true .zero)
      w.InRange ∧ w.Answers ∧ w.address = ⟨0xFF00, true⟩ := by
  have hcreate := stays_in_range.1 true .zero
  obtain ⟨_, -, hrun⟩ := stays_in_range.2 (create true .zero) hcreate
  obtain ⟨hrange, hanswers, -⟩ := hrun [.write 0x2006 0x3F, .write 0x2006 (-1), .write 0x2007 0x121,
    .read 0x2005, .read 0x4000, .write 0x2006 0x7FF]
  exact ⟨hcreate, hrange, hanswers, rfl⟩

end Unbounded.PictureUnit

end Famicom
