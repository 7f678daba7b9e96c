import Famicom.Proofs.Clockwork
import Famicom.Proofs.Ppu.Dots

/-! # The picture is a matter of time

The dots that have been drawn since the last reset decide where the beam stands and what the picture
shows; whatever else is done with the picture unit, be it refused or not, decides nothing
(`Ppu.picture_of_ticks`).

A unit that has drawn `n` dots since its reset *shows* `n` dots (`Ppu.Shows`): its clock reads `n`,
and the pixels of the test pattern are those whose dot comes before the `n`-th dot of the first
frame, all later frames being painted over it in the same colours.  One more dot makes it show one
more (`Ppu.Shows.tick`), and register accesses and transfers change neither the beam nor the frame.
The last part reads the pixels off the list of bytes that a frame is sent as. -/

namespace Famicom

/-! ### The bytes of a frame -/

namespace Frame

/-- In a list of pixels sent as bytes, the bytes of each pixel stand three to the pixel. -/
theorem take_drop_flatMap {ps : List Pixel} {i : Nat} (h : i < ps.length) :
    ((ps.flatMap Pixel.toList).drop (i * 3)).take 3 = ps[i].toList := by
  induction ps generalizing i with
  | nil => cases h
  | cons p ps ih =>
      cases i with
      | zero => rfl
      | succ i =>
          have hi : (i + 1) * 3 = p.toList.length + i * 3 := by
            show (i + 1) * 3 = 3 + i * 3
            omega
          rw [List.flatMap_cons, hi, List.drop_append, List.drop_eq_nil_of_le (by omega),
            Nat.add_sub_cancel_left]
          exact ih (Nat.lt_of_succ_lt_succ h)

theorem length_toList (f : Frame) : f.toList.length = 184320 := by
  have h : ∀ ps : List Pixel, (ps.flatMap Pixel.toList).length = ps.length * 3 := by
    intro ps
    induction ps with
    | nil => rfl
    | cons p ps ih =>
        rw [List.flatMap_cons, List.length_append, ih, List.length_cons]
        show 3 + _ = _
        omega
  rw [toList, h, Vector.length_toList]

/-- The bytes of a pixel in the list of all bytes. -/
theorem take_drop_toList (f : Frame) (x : Fin 256) (y : Fin 240) :
    (f.toList.drop ((y * 256 + x) * 3)).take 3 = (f.get x y).toList := by
  have h : (index x y).val < f.pixels.toList.length := by
    rw [Vector.length_toList]
    exact (index x y).isLt
  have hpixel := take_drop_flatMap h
  rw [Vector.getElem_toList] at hpixel
  exact hpixel

end Frame

namespace Ppu

variable (p : Ppu)

/-! ### What registers do not paint -/

theorem frame_readData : p.readData.2.frame = p.frame := by
  rw [snd_readData]
  rfl

theorem frame_read (r : Register) : (p.read r).2.frame = p.frame := by
  cases r with
  | data => exact p.frame_readData
  | _ => rfl

theorem frame_write (r : Register) (d : Byte) : (p.write r d).frame = p.frame := by
  cases r <;> rfl

theorem frame_writeOam (data : List Byte) : (p.writeOam data).frame = p.frame := by
  obtain ⟨oam, oamAddress, h⟩ := p.exists_writeOam_eq data
  rw [h]

theorem beam_read (r : Register) : (p.read r).2.beam = p.beam :=
  congrArg (·.2.1) (p.clockwork_read r)

theorem beam_write (r : Register) (d : Byte) : (p.write r d).beam = p.beam :=
  congrArg (·.2.1) (p.clockwork_write r d)

theorem beam_writeOam (data : List Byte) : (p.writeOam data).beam = p.beam :=
  congrArg (·.2.1) (p.clockwork_writeOam data)

/-! ### Uses -/

/-- What is done with a picture unit from outside. -/
inductive Use where
  /-- A dot is drawn. -/
  | tick
  | read (address : Int)
  | write (address data : Int)
  | writeOam (data : List Byte)
  | takeTransfer
  | reset
deriving Repr, DecidableEq

/-- The unit after a use, which may have been refused. -/
def after (p : Ppu) : Use → Ppu
  | .tick => p.tick.2
  | .read address => (p.readAt address).2
  | .write address data => (p.writeAt address data).2
  | .writeOam data => p.writeOam data
  | .takeTransfer => p.takeTransfer.2
  | .reset => p.reset

/-- What a use yields if it is not refused. -/
inductive Reply where
  | nothing
  | byte (d : Byte)
  | request (page : Option Byte)
deriving Repr, DecidableEq

/-- What a use of the unit yields. -/
def answer (p : Ppu) : Use → Except Fault Reply
  | .tick => p.tick.1.map fun _ => .nothing
  | .read address => (p.readAt address).1.map .byte
  | .write address data => (p.writeAt address data).1.map .byte
  | .writeOam _ | .reset => .ok .nothing
  | .takeTransfer => .ok (.request p.takeTransfer.1)

/-- A beam in the frame stays there. -/
theorem inFrame_after {p : Ppu} (h : p.beam.InFrame) (u : Use) : (p.after u).beam.InFrame := by
  cases u with
  | tick =>
      show p.tick.2.beam.InFrame
      rw [tick_of_inFrame h]
      exact inFrame_advance h _
  | read address =>
      show (p.readAt address).2.beam.InFrame
      unfold readAt
      split
      · exact h
      · split
        · exact h
        · rw [p.beam_read]
          exact h
  | write address data =>
      show (p.writeAt address data).2.beam.InFrame
      unfold writeAt
      split
      · exact h
      · split
        · exact h
        · rw [p.beam_write]
          exact h
  | writeOam data =>
      show (p.writeOam data).beam.InFrame
      rw [p.beam_writeOam]
      exact h
  | takeTransfer => exact h
  | reset =>
      show Beam.InFrame {}
      decide

/-- A use with the unit that it is made on. -/
structure Moment where
  unit : Ppu
  use : Use

/-- What is yielded in a moment. -/
def Moment.reply (m : Moment) : Except Fault Reply := m.unit.answer m.use

/-- The moments of some uses that are made one after the other. -/
def history (p : Ppu) : List Use → List Moment
  | [] => []
  | u :: us => ⟨p, u⟩ :: (p.after u).history us

theorem history_append (us vs : List Use) :
    p.history (us ++ vs) = p.history us ++ (us.foldl after p).history vs := by
  induction us generalizing p with
  | nil => rfl
  | cons u us ih => exact congrArg (⟨p, u⟩ :: ·) (ih (p.after u))

/-- What each use preserves holds in every moment. -/
theorem forall_history {I : Ppu → Prop} (hafter : ∀ p u, I p → I (p.after u)) {p : Ppu} (hp : I p)
    (us : List Use) : ∀ m ∈ p.history us, I m.unit := by
  induction us generalizing p with
  | nil => exact fun m hm => by cases hm
  | cons u us ih =>
      intro m hm
      rcases List.mem_cons.mp hm with rfl | hm
      · exact hp
      · exact ih (hafter p u hp) m hm

/-- The dots drawn after a use, if `n` were drawn before it since the last reset. -/
def Use.count (n : Nat) : Use → Nat
  | tick => n + 1
  | reset => 0
  | read _ | write _ _ | writeOam _ | takeTransfer => n

/-- The dots drawn since the last reset. -/
def ticksSinceReset (us : List Use) : Nat := us.foldl Use.count 0

/-! ### What the unit shows -/

/-- The unit shows `n` dots. -/
structure Shows (n : Nat) (p : Ppu) : Prop where
  inFrame : p.beam.InFrame
  clock_eq : p.beam.clock = n
  get_eq : ∀ x y, p.frame.get x y = if 341 * y.val + x.val < n then .pattern x y else .black

namespace Shows

variable {p : Ppu} {n : Nat}

theorem of_reset (p : Ppu) : Shows 0 p.reset where
  inFrame := by
    show Beam.InFrame {}
    decide
  clock_eq := rfl
  get_eq x y := by
    rw [if_neg (Nat.not_lt_zero _)]
    exact Frame.get_black x y

/-- What changes neither the beam nor the frame does not change what is shown. -/
theorem congr (h : Shows n p) {q : Ppu} (hb : q.beam = p.beam) (hf : q.frame = p.frame) :
    Shows n q := by
  refine ⟨?_, ?_, ?_⟩
  · rw [hb]
    exact h.inFrame
  · rw [hb]
    exact h.clock_eq
  · rw [hf]
    exact h.get_eq

/-- In the first frame the dot of a pixel is the one that the clock has come to; in a later frame
the pixel has been painted before. -/
theorem painted_iff (h : Shows n p) {x : Fin 256} {y : Fin 240} (he : p.beam.event = .pixel x y)
    (x' : Fin 256) (y' : Fin 240) :
    341 * y'.val + x'.val < n + 1 ↔ (x = x' ∧ y = y') ∨ 341 * y'.val + x'.val < n := by
  have hf := h.inFrame
  have hc := h.clock_eq
  have hxy : p.beam.dot = x.val ∧ p.beam.scanline = y.val := by
    unfold Beam.event at he
    split at he
    · split at he
      · cases he
        dsimp only
        omega
      · cases he
    · split at he
      · cases he
      · split at he <;> cases he
  simp only [Beam.InFrame, Beam.clock, Beam.linesPerFrame, Beam.dotsPerLine] at hf hc
  rw [Fin.ext_iff, Fin.ext_iff]
  omega

/-- Where no pixel is painted the clock has come to no dot of a pixel in the first frame. -/
theorem unpainted_iff (h : Shows n p) (he : ∀ x y, p.beam.event ≠ .pixel x y) (x : Fin 256)
    (y : Fin 240) : 341 * y.val + x.val < n + 1 ↔ 341 * y.val + x.val < n := by
  have hf := h.inFrame
  have hc := h.clock_eq
  have hout : ¬ (p.beam.scanline < 240 ∧ p.beam.dot < 256) := by
    intro hin
    simp only [Beam.InFrame] at hf
    unfold Beam.event at he
    rw [if_pos hin, dif_pos (by omega)] at he
    exact he _ _ rfl
  simp only [Beam.InFrame, Beam.clock, Beam.linesPerFrame, Beam.dotsPerLine] at hf hc
  omega

/-- One more dot. -/
theorem tick (h : Shows n p) : Shows (n + 1) p.tick.2 := by
  rw [tick_of_inFrame h.inFrame]
  refine ⟨inFrame_advance h.inFrame _, ?_, ?_⟩
  · rw [beam_advance, Beam.clock_advance h.inFrame, h.clock_eq]
    rfl
  · intro x' y'
    cases he : p.beam.event with
    | pixel x y =>
        show (p.frame.set x y (.pattern x y)).get x' y' = _
        simp only [h.painted_iff he x' y']
        by_cases hxy : x = x' ∧ y = y'
        · obtain ⟨rfl, rfl⟩ := hxy
          simp
        · rw [Frame.get_set_ne _ _ hxy, h.get_eq]
          simp [hxy]
    | _ =>
        show p.frame.get x' y' = _
        rw [h.get_eq]
        simp only [h.unpainted_iff (fun x y => by rw [he]; simp) x' y']

/-- One more use of any kind. -/
theorem after (h : Shows n p) (u : Use) : Shows (u.count n) (p.after u) := by
  cases u with
  | tick => exact h.tick
  | read address =>
      show Shows n (p.readAt address).2
      unfold readAt
      split
      · exact h
      · split
        · exact h
        · exact h.congr (p.beam_read _) (p.frame_read _)
  | write address data =>
      show Shows n (p.writeAt address data).2
      unfold writeAt
      split
      · exact h
      · split
        · exact h
        · exact h.congr (p.beam_write _ _) (p.frame_write _ _)
  | writeOam data => exact h.congr (p.beam_writeOam data) (p.frame_writeOam data)
  | takeTransfer => exact h.congr rfl rfl
  | reset => exact of_reset p

/-- Uses one after the other. -/
theorem foldl (h : Shows n p) (us : List Use) :
    Shows (us.foldl Use.count n) (us.foldl Ppu.after p) := by
  induction us generalizing n p with
  | nil => exact h
  | cons u us ih => exact ih (h.after u)

end Shows

/-- **The picture is a matter of time.**  However a picture unit is used after a reset, the next dot
can be drawn, and the number of dots drawn since the last reset tells where the beam stands and
which pixels are painted. -/
theorem picture_of_ticks (us : List Use) :
    let q := us.foldl after p.reset
    let n := ticksSinceReset us
    q.tick.1 = .ok () ∧
      q.beam.dot = n % 341 ∧ q.beam.scanline = n / 341 % 262 ∧ q.beam.frames = n / (341 * 262) ∧
      q.frame.toList.length = 184320 ∧
      ∀ (x : Fin 256) (y : Fin 240), (q.frame.toList.drop ((y * 256 + x) * 3)).take 3 =
        if 341 * y.val + x.val < n then [BitVec.ofNat 8 x, BitVec.ofNat 8 y, 128]
        else [0, 0, 0] := by
  intro q n
  have h : Shows n q := (Shows.of_reset p).foldl us
  have hf := h.inFrame
  have hc := h.clock_eq
  simp only [Beam.InFrame, Beam.clock, Beam.linesPerFrame, Beam.dotsPerLine] at hf hc
  refine ⟨?_, by omega, by omega, by omega, q.frame.length_toList, fun x y => ?_⟩
  · rw [tick_of_inFrame h.inFrame]
  · rw [Frame.take_drop_toList, h.get_eq]
    split <;> rfl

/-- A new unit is as after a reset. -/
example (strict : Bool) : ({ strict } : Ppu).reset = { strict } := rfl

end Ppu

end Famicom
