import Famicom.Proofs.Ppu.Latches
import Famicom.Proofs.Ppu.Unbounded

/-! # Both picture units do the same

A picture unit that keeps bytes is one on unbounded integers (`Ppu.numbers`).  A use of the one and
the same use of the other end in the same way and leave the same state, as long as the beam is in
the frame (`Unbounded.PictureUnit.perform_use`).  For each action of the unit on integers there is a
lemma `perform_…` that says this of the action.  A step of the program that could run into a check,
or leave a number out of range, is where such a lemma needs more than unfolding: a buffer holds as
many bytes as the memory it stands for (`Memory.get_buffer`, `Memory.set_buffer`), sums are reduced
where a byte wraps around, and the bits that are cleared or set are those of a byte (`land_vblank`,
`lor_vblank`). -/

namespace Famicom

open Unbounded

/-! ### States as integers -/

/-- The colour bytes of a frame in a buffer. -/
def Frame.buffer (f : Frame) : Buffer := .ofBytes f.toList

theorem Frame.flatMap_set (ps : List Pixel) (i : Nat) (c : Pixel) :
    (ps.set i c).flatMap Pixel.toList =
      (((ps.flatMap Pixel.toList).set (i * 3) c.red).set (i * 3 + 1) c.green).set (i * 3 + 2)
        c.blue := by
  induction ps generalizing i with
  | nil => rfl
  | cons q qs ih =>
      cases i with
      | zero => rfl
      | succ i =>
          rw [List.set_cons_succ, List.flatMap_cons, ih, Nat.succ_mul]
          rfl

theorem Frame.buffer_set (f : Frame) (x : Fin 256) (y : Fin 240) (c : Pixel) :
    (f.set x y c).buffer =
      ⟨((f.buffer.cells.set ((y * 256 + x) * 3) c.red.toNat).set ((y * 256 + x) * 3 + 1)
        c.green.toNat).set ((y * 256 + x) * 3 + 2) c.blue.toNat⟩ := by
  rw [buffer, toList, set, Vector.toList_set, flatMap_set, Buffer.ofBytes, List.map_set,
    List.map_set, List.map_set]
  rfl

theorem Frame.length_buffer (f : Frame) : f.buffer.length = 184320 := by
  show (f.toList.map _).length = _
  rw [List.length_map, f.length_toList]

theorem Frame.flatMap_black (n : Nat) :
    (List.replicate n Pixel.black).flatMap Pixel.toList = List.replicate (n * 3) 0 := by
  induction n with
  | zero => rfl
  | succ n ih =>
      rw [List.replicate_succ, List.flatMap_cons, ih, Nat.succ_mul]
      rfl

theorem Frame.buffer_black : black.buffer = .zero 184320 := by
  rw [buffer, toList, black, Vector.toList_replicate, flatMap_black, Buffer.ofBytes,
    List.map_replicate]
  rfl

/-- The state as integers. -/
def Ppu.numbers (p : Ppu) : PictureUnit where
  strict := p.strict
  memory := p.memory
  oam := p.oam.buffer
  frame := p.frame.buffer
  control := p.control.toNat
  mask := p.mask.toNat
  status := p.status.toNat
  oamAddress := p.oamAddress.toNat
  scroll := p.scroll
  address := p.address
  readBuffer := p.readBuffer.toNat
  oamDma := p.oamDma.toNat
  transferRequest := p.transferRequest.map fun d => (d.toNat : Int)
  beam := p.beam
  nmiRequested := p.nmiRequested

/-- The address lies in one of the two places where there are registers. -/
def Ppu.HasRegister (a : Int) : Prop := 0x2000 ≤ a ∧ a ≤ 0x2007 ∨ a = 0x4014

theorem Ppu.Register.ofInt?_eq_none_iff {a : Int} : ofInt? a = none ↔ ¬ HasRegister a := by
  unfold ofInt? HasRegister
  split
  · exact iff_of_false (fun h => by cases h) (by omega)
  · split
    · exact iff_of_false (fun h => by cases h) (by omega)
    · exact iff_of_true rfl (by omega)

namespace Unbounded.PictureUnit

open Ppu (Register)

/-! ### Bits -/

theorem land_stepsByLine (b : Byte) : Int.land b.toNat 0x04 ≠ 0 ↔ Ppu.stepsByLine b = true := by
  revert b
  decide +kernel

theorem land_enablesNmi (b : Byte) : decide (Int.land b.toNat 0x80 ≠ 0) = Ppu.enablesNmi b := by
  revert b
  decide +kernel

theorem land_vblank (b : Byte) :
    Int.land b.toNat (0xFF - vblank) = (b &&& ~~~Ppu.vblank).toNat := by
  rw [BitVec.toNat_and]
  rfl

theorem lor_vblank (b : Byte) : Int.lor b.toNat vblank = (b ||| Ppu.vblank).toNat := by
  rw [BitVec.toNat_or]
  rfl

section
variable (p : Ppu)

/-! ### Video memory and sprite memory -/

theorem perform_readMemory (u : PictureUnit) (a : Int) :
    (readMemory a).perform u = (.ok (u.memory.read a).toNat, u) := by
  show (liftExcept (u.memory.readChecked a) >>= fun d => pure (d.toNat : Int) :
    Action PictureUnit Int).perform u = _
  rw [VideoMemory.readChecked_eq]
  rfl

theorem perform_advanceAddress :
    advanceAddress.perform p.numbers = (.ok (), p.advanceAddress.numbers) := by
  have hstep : (if Int.land p.control.toNat 0x04 ≠ 0 then (32 : Int) else 1) =
      if Ppu.stepsByLine p.control then 32 else 1 := if_congr (land_stepsByLine _) rfl rfl
  show (Except.ok (), ({ p.numbers with
    address := ⟨(p.address.value + if Int.land p.control.toNat 0x04 ≠ 0 then 32 else 1) % 0x4000,
      p.address.toggle⟩ } : PictureUnit)) = _
  rw [hstep]
  rfl

theorem perform_readData :
    readData.perform p.numbers = (.ok p.readData.1.toNat, p.readData.2.numbers) := by
  have hrest : ∀ (d : Byte) (n : Int),
      (modify ({ · with readBuffer := d.toNat }) >>= fun _ => advanceAddress >>= fun _ => pure n :
        Action PictureUnit Int).perform p.numbers =
        (.ok n, (Ppu.advanceAddress { p with readBuffer := d }).numbers) := by
    intro d n
    exact Action.perform_bind_of_ok (perform_advanceAddress { p with readBuffer := d })
      fun _ => pure n
  rw [p.fst_readData, p.snd_readData]
  show (if 0x3F00 ≤ p.videoAddress then _ else _ : Action PictureUnit Int).perform p.numbers = _
  split
  · rw [Action.perform_bind_of_ok (perform_readMemory _ _),
      Action.perform_bind_of_ok (perform_readMemory _ _)]
    exact hrest _ _
  · rw [Action.perform_bind_of_ok (perform_readMemory _ _)]
    exact hrest _ _

theorem perform_writeData (d : Byte) :
    (writeData d.toNat).perform p.numbers = (.ok (), (p.writeData d).numbers) := by
  have hmemory : p.memory.writeChecked p.videoAddress d.toNat =
      .ok (p.memory.store p.videoAddress d) := by
    rw [VideoMemory.writeChecked_eq, VideoMemory.write, Byte.ofInt?_toNat]
  show (liftExcept (p.memory.writeChecked p.videoAddress d.toNat) >>= _ :
    Action PictureUnit Unit).perform p.numbers = _
  rw [hmemory]
  exact perform_advanceAddress { p with memory := p.memory.store p.videoAddress d }

theorem perform_writeOamByte (d : Byte) :
    (writeOamByte d.toNat).perform p.numbers = (.ok (), (p.writeOamByte d).numbers) := by
  have hoam : p.oam.buffer.set p.oamAddress.toNat d.toNat =
      .ok (p.oam.set p.oamAddress.toFin d).buffer := p.oam.set_buffer p.oamAddress.toFin d
  have hnext : ((p.oamAddress.toNat : Int) + 1) % 0x100 = (p.oamAddress + 1).toNat := by
    rw [BitVec.toNat_add]
    rfl
  show (liftExcept (p.oam.buffer.set p.oamAddress.toNat d.toNat) >>= _ :
    Action PictureUnit Unit).perform p.numbers = _
  rw [hoam]
  show (Except.ok (), ({ p.numbers with
    oam := (p.oam.set p.oamAddress.toFin d).buffer
    oamAddress := ((p.oamAddress.toNat : Int) + 1) % 0x100 } : PictureUnit)) = _
  rw [hnext]
  rfl

theorem perform_writeOam (ds : List Byte) :
    (writeOam ds).perform p.numbers = (.ok (), (p.writeOam ds).numbers) := by
  induction ds generalizing p with
  | nil => rfl
  | cons d ds ih =>
      rw [writeOam, Action.perform_bind_of_ok (perform_writeOamByte p d)]
      exact ih (p.writeOamByte d)

theorem perform_readStatus :
    readStatus.perform p.numbers = (.ok p.readStatus.1.toNat, p.readStatus.2.numbers) := by
  show (Except.ok _, ({ p.numbers with
    status := Int.land p.status.toNat (0xFF - vblank), scroll := _, address := _ } :
      PictureUnit)) = _
  rw [land_vblank]
  rfl

/-! ### Registers -/

theorem perform_readRegister_of_readable {r : Register} (h : r.writeOnly = false) :
    (readRegister r.toInt).perform p.numbers = (.ok (p.read r).1.toNat, (p.read r).2.numbers) := by
  cases r with
  | oamData =>
      show (liftExcept (p.oam.buffer.get p.oamAddress.toNat) : Action PictureUnit Int).perform
        p.numbers = _
      rw [Action.perform_liftExcept]
      exact congrArg (·, p.numbers) (p.oam.get_buffer p.oamAddress.toFin)
  | status => exact perform_readStatus p
  | data => exact perform_readData p
  | scroll => cases h
  | address => cases h
  | _ => rfl

theorem perform_readRegister_of_writeOnly {r : Register} (h : r.writeOnly = true)
    (u : PictureUnit) :
    (readRegister r.toInt).perform u =
      (if u.strict then .error (.writeOnlyRegister r.toInt) else .ok 0, u) := by
  have hthrow : ∀ a : Int, (if u.strict then throw (.writeOnlyRegister a) else pure 0 :
      Action PictureUnit Int).perform u =
        (if u.strict then .error (.writeOnlyRegister a) else .ok 0, u) := by
    intro a
    cases u.strict <;> rfl
  cases r with
  | scroll => exact hthrow 0x2005
  | address => exact hthrow 0x2006
  | _ => cases h

theorem perform_readRegister_of_none {a : Int} (h : Register.ofInt? a = none)
    (u : PictureUnit) : (readRegister a).perform u = (.error (.invalidRegister a), u) := by
  rw [Register.ofInt?_eq_none_iff, Ppu.HasRegister] at h
  show (if a = 0x2000 then _ else _ : Action PictureUnit Int).perform u = _
  rw [if_neg (by omega), if_neg (by omega), if_neg (by omega), if_neg (by omega),
    if_neg (by omega), if_neg (by omega), if_neg (by omega), if_neg (by omega)]
  rfl

theorem perform_readRegister (a : Int) :
    (readRegister a).perform p.numbers =
      ((p.readAt a).1.map fun d => (d.toNat : Int), (p.readAt a).2.numbers) := by
  rcases Register.ofInt?_cases a with hnone | ⟨r, rfl⟩
  · rw [p.readAt_of_none hnone, perform_readRegister_of_none hnone]
    rfl
  cases hr : r.writeOnly with
  | false =>
      rw [p.readAt_of_readable hr, perform_readRegister_of_readable p hr]
      rfl
  | true =>
      rw [p.readAt_of_writeOnly hr, perform_readRegister_of_writeOnly hr]
      show (if p.strict then _ else _, _) = _
      cases p.strict <;> rfl

theorem perform_writeReduced_of_writable {r : Register} (h : r.readOnly = false) (d : Byte) :
    (writeReduced r.toInt d.toNat).perform p.numbers = (.ok (), (p.write r d).numbers) := by
  cases r with
  | oamData => exact perform_writeOamByte p d
  | data => exact perform_writeData p d
  | status => cases h
  | _ => rfl

theorem perform_writeReduced_of_readOnly {r : Register} (h : r.readOnly = true) (n : Int)
    (u : PictureUnit) :
    (writeReduced r.toInt n).perform u =
      (if u.strict then .error (.readOnlyRegister r.toInt) else .ok (), u) := by
  cases r with
  | status =>
      show (if u.strict then throw (.readOnlyRegister 0x2002) else pure () :
        Action PictureUnit Unit).perform u =
          (if u.strict then .error (.readOnlyRegister 0x2002) else .ok (), u)
      cases u.strict <;> rfl
  | _ => cases h

theorem perform_writeReduced_of_none {a : Int} (h : Register.ofInt? a = none) (n : Int)
    (u : PictureUnit) : (writeReduced a n).perform u = (.error (.invalidRegister a), u) := by
  rw [Register.ofInt?_eq_none_iff, Ppu.HasRegister] at h
  show (if a = 0x2000 then _ else _ : Action PictureUnit Unit).perform u = _
  rw [if_neg (by omega), if_neg (by omega), if_neg (by omega), if_neg (by omega),
    if_neg (by omega), if_neg (by omega), if_neg (by omega), if_neg (by omega), if_neg (by omega)]
  rfl

theorem perform_writeRegister (a d : Int) :
    (writeRegister a d).perform p.numbers =
      ((p.writeAt a d).1.map fun d => (d.toNat : Int), (p.writeAt a d).2.numbers) := by
  rw [writeRegister, ← Ppu.toNat_datum]
  rcases Register.ofInt?_cases a with hnone | ⟨r, rfl⟩
  · rw [p.writeAt_of_none hnone,
      Action.perform_bind_of_error (perform_writeReduced_of_none hnone _ _)]
    rfl
  cases hr : r.readOnly with
  | false =>
      rw [p.writeAt_of_writable hr,
        Action.perform_bind_of_ok (perform_writeReduced_of_writable p hr _)]
      rfl
  | true =>
      have hreduced : (writeReduced r.toInt (BitVec.ofInt 8 d).toNat).perform p.numbers =
          (if p.strict then .error (.readOnlyRegister r.toInt) else .ok (), p.numbers) :=
        perform_writeReduced_of_readOnly hr _ p.numbers
      rw [p.writeAt_of_readOnly hr]
      cases hs : p.strict with
      | false =>
          rw [hs] at hreduced
          rw [Action.perform_bind_of_ok hreduced]
          rfl
      | true =>
          rw [hs] at hreduced
          rw [Action.perform_bind_of_error hreduced]
          rfl

/-! ### Dots -/

theorem perform_paintByte {u : PictureUnit} {i : Nat} (h : i < u.frame.cells.length) (d : Byte) :
    (paintByte i d.toNat).perform u =
      (.ok (), { u with frame := ⟨u.frame.cells.set i d.toNat⟩ }) := by
  show (liftExcept (u.frame.set i d.toNat) >>= fun frame => modify ({ · with frame }) :
    Action PictureUnit Unit).perform u = _
  rw [Buffer.set_of_lt h]
  rfl

theorem perform_paint (x : Fin 256) (y : Fin 240) :
    (paint x.val y.val).perform p.numbers = (.ok (), (p.paint x y).numbers) := by
  let i : Nat := (y.val * 256 + x.val) * 3
  let c := Pixel.pattern x y
  have hi : i + 2 < p.numbers.frame.cells.length := by
    show (y.val * 256 + x.val) * 3 + 2 < p.frame.buffer.length
    rw [p.frame.length_buffer]
    omega
  have hpixel : (p.paint x y).numbers = { p.numbers with
      frame := ⟨((p.numbers.frame.cells.set i c.red.toNat).set (i + 1) c.green.toNat).set (i + 2)
        c.blue.toNat⟩ } := by
    show ({ p.numbers with frame := (p.frame.set x y c).buffer } : PictureUnit) = _
    rw [Frame.buffer_set]
    rfl
  have hpaint : paint x.val y.val = (do
      paintByte i c.red.toNat
      paintByte (i + 1 : Nat) c.green.toNat
      paintByte (i + 2 : Nat) c.blue.toNat) := by
    have hred : c.red.toNat = x.val := Nat.mod_eq_of_lt x.isLt
    have hgreen : c.green.toNat = y.val := Nat.mod_eq_of_lt (by omega)
    have hblue : c.blue.toNat = 128 := rfl
    rw [hred, hgreen, hblue]
    rfl
  rw [hpaint, Action.perform_bind_of_ok (perform_paintByte (by omega) _),
    Action.perform_bind_of_ok (perform_paintByte (by rw [List.length_set]; omega) _),
    perform_paintByte (by rw [List.length_set, List.length_set]; omega), hpixel]

theorem perform_tick (h : p.beam.InFrame) :
    tick.perform p.numbers = (p.tick.1, p.tick.2.numbers) := by
  have hmove : ∀ q : Ppu, drawDot.perform p.numbers = (.ok (), q.numbers) →
      tick.perform p.numbers = (.ok (), ({ q with beam := q.beam.advance } : Ppu).numbers) :=
    fun q hq => Action.perform_bind_of_ok hq _
  have hdot : drawDot.perform p.numbers =
      (if p.beam.scanline < 240 ∧ p.beam.dot < 256 then paint p.beam.dot p.beam.scanline
        else if p.beam.dot = 1 then
          if p.beam.scanline = 241 then set { p.numbers with
            status := Int.lor p.status.toNat vblank
            nmiRequested := p.nmiRequested || decide (Int.land p.control.toNat 0x80 ≠ 0) }
          else if p.beam.scanline = 261 then set { p.numbers with status := 0 }
          else pure ()
        else pure ()).perform p.numbers := rfl
  rw [Ppu.tick_of_inFrame h]
  simp only [Beam.InFrame, Beam.linesPerFrame, Beam.dotsPerLine] at h
  by_cases hvisible : p.beam.scanline < 240 ∧ p.beam.dot < 256
  · let x : Fin 256 := ⟨p.beam.dot.toNat, by omega⟩
    let y : Fin 240 := ⟨p.beam.scanline.toNat, by omega⟩
    have hx : (x.val : Int) = p.beam.dot := Int.toNat_of_nonneg (by omega)
    have hy : (y.val : Int) = p.beam.scanline := Int.toNat_of_nonneg (by omega)
    have he : p.beam.event = .pixel x y := by
      rw [Beam.event, if_pos hvisible, dif_pos (by omega)]
    have hpaint := perform_paint p x y
    rw [hx, hy] at hpaint
    rw [if_pos hvisible, hpaint] at hdot
    rw [he]
    exact hmove _ hdot
  rw [if_neg hvisible] at hdot
  by_cases hstart : p.beam.dot = 1 ∧ p.beam.scanline = 241
  · have he : p.beam.event = .blankStarts := by rw [Beam.event, if_neg hvisible, if_pos hstart]
    rw [if_pos hstart.1, if_pos hstart.2, lor_vblank, land_enablesNmi] at hdot
    rw [he]
    exact hmove { p with
      status := p.status ||| Ppu.vblank
      nmiRequested := p.nmiRequested || Ppu.enablesNmi p.control } hdot
  by_cases hend : p.beam.dot = 1 ∧ p.beam.scanline = 261
  · have he : p.beam.event = .blankEnds := by
      rw [Beam.event, if_neg hvisible, if_neg hstart, if_pos hend]
    rw [if_pos hend.1, if_neg (by omega), if_pos hend.2] at hdot
    rw [he]
    exact hmove { p with status := 0 } hdot
  have he : p.beam.event = .quiet := by
    rw [Beam.event, if_neg hvisible, if_neg hstart, if_neg hend]
  rw [he]
  refine hmove p (hdot.trans ?_)
  split
  · rw [if_neg (by omega), if_neg (by omega)]
    rfl
  · rfl

/-! ### Uses -/

/-- What a use yields, as integers. -/
def replyNumber : Ppu.Reply → Reply
  | .nothing => .nothing
  | .byte d => .number d.toNat
  | .request page => .request (page.map fun d => (d.toNat : Int))

theorem map_map_reply (e : Except Fault Byte) :
    (e.map fun d => (d.toNat : Int)).map Reply.number = (e.map Ppu.Reply.byte).map replyNumber := by
  cases e <;> rfl

theorem reset_numbers : p.numbers.reset = p.reset.numbers := by
  have hframe : p.numbers.frame.replace 0 p.numbers.frame.length
      (.zero p.numbers.frame.length) = Frame.black.buffer := by
    rw [Buffer.replace_all, Frame.buffer_black]
    exact congrArg Buffer.zero p.frame.length_buffer
  rw [reset, hframe]
  rfl

theorem create_eq_numbers (strict : Bool) (memory : VideoMemory) :
    create strict memory = ({ strict, memory } : Ppu).numbers := by
  rw [create, ← Frame.buffer_black, ← Memory.buffer_zero]
  rfl

/-- **Both units do the same**, as long as the beam is in the frame. -/
theorem perform_use (h : p.beam.InFrame) (x : Ppu.Use) :
    (use x).perform p.numbers = ((p.answer x).map replyNumber, (p.after x).numbers) := by
  cases x with
  | tick =>
      have htick := perform_tick p h
      rw [Ppu.tick_of_inFrame h] at htick
      rw [Ppu.answer, Ppu.after, Ppu.tick_of_inFrame h]
      exact Action.perform_bind_of_ok htick fun _ => pure Reply.nothing
  | read a =>
      rw [Ppu.answer, ← map_map_reply]
      exact Action.perform_map (perform_readRegister p a) Reply.number
  | write a d =>
      rw [Ppu.answer, ← map_map_reply]
      exact Action.perform_map (perform_writeRegister p a d) Reply.number
  | writeOam data => exact Action.perform_bind_of_ok (perform_writeOam p data) _
  | takeTransfer => rfl
  | reset =>
      show (Except.ok Reply.nothing, p.numbers.reset) = _
      rw [reset_numbers]
      rfl

end

end Unbounded.PictureUnit

end Famicom
