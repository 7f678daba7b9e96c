import Famicom.Ppu.Basic

/-! # Many dots in a row

Within a frame the clock of the beam and its position determine each other, so the beam stands at
the start of the vertical blank just when the clock has a certain remainder modulo the dots of a
frame (`Beam.atBlank_iff`).  Drawing dots moves the clock by their number
(`Ppu.clock_tickTimes`), leaves the control register alone, and so passes the start of the vertical
blank at most once among as many dots as a frame has. -/

namespace Famicom

namespace Beam

/-- Dots in a frame. -/
def dotsPerFrame : Int := linesPerFrame * dotsPerLine

/-- The beam stands where the vertical blank starts. -/
def AtBlank (b : Beam) : Prop := b.scanline = 241 ∧ b.dot = 1

instance (b : Beam) : Decidable b.AtBlank := inferInstanceAs (Decidable (_ ∧ _))

theorem event_eq_blankStarts_iff {b : Beam} : b.event = .blankStarts ↔ b.AtBlank := by
  unfold event AtBlank
  split
  · split <;> simp <;> omega
  · split
    · simp
      omega
    · split <;> simp <;> omega

theorem atBlank_iff {b : Beam} (h : b.InFrame) :
    b.AtBlank ↔ b.clock % dotsPerFrame = 241 * 341 + 1 := by
  simp only [InFrame, linesPerFrame, dotsPerLine] at h
  simp only [AtBlank, clock, dotsPerFrame, linesPerFrame, dotsPerLine]
  omega

end Beam

namespace Ppu

variable {p : Ppu}

theorem strict_advance (p : Ppu) (e : Beam.Event) : (p.advance e).strict = p.strict := by
  cases e <;> rfl

/-- An interrupt is requested at one dot only, and only if the control register allows it. -/
theorem nmiRequested_advance (p : Ppu) :
    (p.advance p.beam.event).nmiRequested =
      (p.nmiRequested || (decide p.beam.AtBlank && enablesNmi p.control)) := by
  have hb := Beam.event_eq_blankStarts_iff (b := p.beam)
  cases he : p.beam.event with
  | blankStarts =>
      rw [decide_eq_true (hb.mp he), Bool.true_and]
      rfl
  | _ =>
      have hn : ¬ p.beam.AtBlank := fun h => by
        rw [hb.mpr h] at he
        cases he
      rw [decide_eq_false hn, Bool.false_and, Bool.or_false]
      rfl

theorem tickTimes_succ_of_inFrame (h : p.beam.InFrame) (n : Nat) :
    p.tickTimes (n + 1) = (p.advance p.beam.event).tickTimes n := by
  rw [tickTimes, tick_of_inFrame h]

theorem inFrame_advance (h : p.beam.InFrame) (e : Beam.Event) : (p.advance e).beam.InFrame := by
  rw [beam_advance]
  exact h.advance

theorem strict_tickTimes (h : p.beam.InFrame) (n : Nat) :
    (p.tickTimes n).2.strict = p.strict := by
  induction n generalizing p with
  | zero => rfl
  | succ n ih =>
      rw [tickTimes_succ_of_inFrame h, ih (inFrame_advance h _), strict_advance]

theorem clock_tickTimes (h : p.beam.InFrame) (n : Nat) :
    (p.tickTimes n).2.beam.clock = p.beam.clock + n := by
  induction n generalizing p with
  | zero => simp [tickTimes]
  | succ n ih =>
      rw [tickTimes_succ_of_inFrame h, ih (inFrame_advance h _), beam_advance,
        Beam.clock_advance h]
      omega

end Ppu

end Famicom
