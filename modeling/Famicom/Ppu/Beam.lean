/-! # The beam

The picture unit draws one dot at a time: 341 dots make a line, 262 lines make a frame, and of
these the first 256 dots of the first 240 lines are visible.  Two dots outside the picture matter:
at dot 1 of line 241 the vertical blank begins, at dot 1 of line 261 it ends.  `Beam.clock` counts
the dots since the first dot of frame zero; every advance adds one to it. -/

namespace Famicom

/-- The dot that is drawn next.  The coordinates are integers, since a caller may put the beam
anywhere. -/
structure Beam where
  scanline : Int := 0
  dot : Int := 0
  frames : Int := 0
deriving Repr, DecidableEq

namespace Beam

/-- Dots in a line. -/
def dotsPerLine : Int := 341

/-- Lines in a frame. -/
def linesPerFrame : Int := 262

/-- What the dot under the beam does. -/
inductive Event where
  /-- The dot is visible; its column and line are given. -/
  | pixel (x : Fin 256) (y : Fin 240)
  | blankStarts
  | blankEnds
  | quiet
  /-- The beam is left of the picture or above it. -/
  | astray
deriving Repr, DecidableEq

/-- The event at a position of the beam. -/
def event (b : Beam) : Event :=
  if b.scanline < 240 ∧ b.dot < 256 then
    if h : 0 ≤ b.scanline ∧ b.scanline.toNat < 240 ∧ 0 ≤ b.dot ∧ b.dot.toNat < 256 then
      .pixel ⟨b.dot.toNat, h.2.2.2⟩ ⟨b.scanline.toNat, h.2.1⟩
    else .astray
  else if b.dot = 1 ∧ b.scanline = 241 then .blankStarts
  else if b.dot = 1 ∧ b.scanline = 261 then .blankEnds
  else .quiet

/-- The next position of the beam. -/
def advance (b : Beam) : Beam :=
  if b.dot + 1 < dotsPerLine then { b with dot := b.dot + 1 }
  else if b.scanline + 1 < linesPerFrame then { b with scanline := b.scanline + 1, dot := 0 }
  else ⟨0, 0, b.frames + 1⟩

/-- The number of dots drawn since the first dot of frame zero. -/
def clock (b : Beam) : Int :=
  (b.frames * linesPerFrame + b.scanline) * dotsPerLine + b.dot

/-- The beam is at one of the dots of a frame. -/
def InFrame (b : Beam) : Prop :=
  0 ≤ b.scanline ∧ b.scanline < linesPerFrame ∧ 0 ≤ b.dot ∧ b.dot < dotsPerLine

instance (b : Beam) : Decidable b.InFrame :=
  inferInstanceAs (Decidable (_ ∧ _ ∧ _ ∧ _))

theorem InFrame.advance {b : Beam} (h : b.InFrame) : b.advance.InFrame := by
  simp only [InFrame, dotsPerLine, linesPerFrame] at h
  by_cases hd : b.dot + 1 < 341 <;> by_cases hl : b.scanline + 1 < 262 <;>
    simp only [InFrame, Beam.advance, dotsPerLine, linesPerFrame, hd, hl, reduceIte,
      and_true, true_and] <;>
    omega

theorem clock_advance {b : Beam} (h : b.InFrame) : b.advance.clock = b.clock + 1 := by
  simp only [InFrame, dotsPerLine, linesPerFrame] at h
  by_cases hd : b.dot + 1 < 341 <;> by_cases hl : b.scanline + 1 < 262 <;>
    simp only [clock, Beam.advance, dotsPerLine, linesPerFrame, hd, hl, reduceIte] <;>
    omega

theorem event_ne_astray {b : Beam} (h : b.InFrame) : b.event ≠ .astray := by
  simp only [InFrame, event, dotsPerLine, linesPerFrame] at h ⊢
  split
  · rw [dif_pos (by omega)]
    simp
  · split <;> (try split) <;> simp

end Beam

end Famicom
