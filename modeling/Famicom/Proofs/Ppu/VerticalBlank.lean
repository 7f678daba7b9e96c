import Mathlib.Data.List.Induction
import Famicom.Proofs.Ppu.Access
import Famicom.Proofs.Ppu.Picture

/-! # The vertical blank is reported once

When the vertical blank starts, a bit of the status register is set, for a program to find it there.
Three things clear it: a reset, the end of the blank, and the read that finds it.  So the bit tells of
the most recent past alone: it is set just if the last start of a blank has been followed by none of
the three (`Ppu.BlankPending`), and a read that finds it set uses that start up.  No other bit of the
register is ever set.

Each use of the picture unit does one of three things to the register (`Ppu.OnStatus`).  From this the
state of the bit after a history follows by adding one moment at a time
(`Ppu.TellsBlank.after`), and so does the account of starts and reports, in which a bit that
is set stands for a start that may still be reported (`Ppu.reports_add_le`). -/

namespace Famicom

theorem Beam.event_eq_blankEnds_iff {b : Beam} :
    b.event = .blankEnds ↔ b.scanline = 261 ∧ b.dot = 1 := by
  unfold event
  split
  · split <;> simp <;> omega
  · split
    · simp
      omega
    · split <;> simp <;> omega

namespace Ppu

/-! ### Moments that matter -/

namespace Moment

/-- The dot at which the vertical blank starts is drawn. -/
def StartsBlank (m : Moment) : Prop :=
  m.use = .tick ∧ m.unit.beam.scanline = 241 ∧ m.unit.beam.dot = 1

/-- The dot at which the vertical blank ends is drawn. -/
def EndsBlank (m : Moment) : Prop :=
  m.use = .tick ∧ m.unit.beam.scanline = 261 ∧ m.unit.beam.dot = 1

/-- The status register is read. -/
def ReadsStatus (m : Moment) : Prop := m.use = .read 0x2002

/-- The status register is read and tells of a vertical blank. -/
def ReportsBlank (m : Moment) : Prop := m.ReadsStatus ∧ m.reply = .ok (.byte 0x80)

/-- What has been told of a vertical blank is forgotten. -/
def ForgetsBlank (m : Moment) : Prop := m.use = .reset ∨ m.ReadsStatus ∨ m.EndsBlank

variable (m : Moment)

instance : Decidable m.StartsBlank := inferInstanceAs (Decidable (_ ∧ _ ∧ _))

instance : Decidable m.EndsBlank := inferInstanceAs (Decidable (_ ∧ _ ∧ _))

instance : Decidable m.ReadsStatus := inferInstanceAs (Decidable (_ = _))

instance : Decidable m.ReportsBlank := inferInstanceAs (Decidable (_ ∧ _))

instance : Decidable m.ForgetsBlank := inferInstanceAs (Decidable (_ ∨ _ ∨ _))

variable {m}

theorem StartsBlank.not_forgetsBlank (h : m.StartsBlank) : ¬ m.ForgetsBlank := by
  obtain ⟨htick, hline, -⟩ := h
  rintro (hreset | hread | ⟨-, hline', -⟩)
  · cases htick.symm.trans hreset
  · cases htick.symm.trans hread
  · omega

end Moment

/-- A start of the vertical blank is more recent than all that makes it forgotten. -/
def BlankPending (ms : List Moment) : Prop :=
  ∃ before start later, ms = before ++ start :: later ∧ start.StartsBlank ∧
    ∀ m ∈ later, ¬ m.ForgetsBlank

theorem not_blankPending_nil : ¬ BlankPending [] := by
  rintro ⟨before, start, later, h, -⟩
  cases before <;> cases h

/-- One more moment starts the blank, or leaves it pending. -/
theorem blankPending_append {ms : List Moment} {m : Moment} :
    BlankPending (ms ++ [m]) ↔ m.StartsBlank ∨ BlankPending ms ∧ ¬ m.ForgetsBlank := by
  constructor
  · rintro ⟨before, start, later, h, hstart, hlater⟩
    rcases List.eq_nil_or_concat later with rfl | ⟨later, last, rfl⟩
    · obtain ⟨-, hlast⟩ := List.append_inj' h rfl
      cases hlast
      exact Or.inl hstart
    · rw [List.concat_eq_append, ← List.cons_append, ← List.append_assoc] at h
      obtain ⟨rfl, hlast⟩ := List.append_inj' h rfl
      cases hlast
      refine Or.inr ⟨⟨before, start, later, rfl, hstart, fun x hx => hlater x ?_⟩, hlater m ?_⟩
      · simp [hx]
      · simp
  · rintro (hstart | ⟨⟨before, start, later, rfl, hstart, hlater⟩, hm⟩)
    · exact ⟨ms, m, [], rfl, hstart, by simp⟩
    · refine ⟨before, start, later ++ [m], by simp, hstart, ?_⟩
      intro x hx
      rcases List.mem_append.mp hx with hx | hx
      · exact hlater x hx
      · rw [List.mem_singleton.mp hx]
        exact hm

/-! ### What a use does to the status register -/

section
variable (p : Ppu)

theorem status_readData : p.readData.2.status = p.status := by
  rw [snd_readData]
  rfl

theorem status_write (r : Register) (d : Byte) : (p.write r d).status = p.status := by
  cases r <;> rfl

theorem status_writeOam (data : List Byte) : (p.writeOam data).status = p.status := by
  obtain ⟨oam, oamAddress, h⟩ := p.exists_writeOam_eq data
  rw [h]

end

/-- What happens to the status register in a moment. -/
inductive OnStatus (m : Moment) : Prop
  | starts (h : m.StartsBlank)
      (hs : (m.unit.after m.use).status = m.unit.status ||| vblank)
  | clears (h : m.ForgetsBlank) (hs : (m.unit.after m.use).status = 0 ∨
      (m.unit.after m.use).status = m.unit.status &&& ~~~vblank)
  | keeps (hstart : ¬ m.StartsBlank) (hforget : ¬ m.ForgetsBlank)
      (hs : (m.unit.after m.use).status = m.unit.status)

section
variable {p : Ppu}

theorem onStatus_tick (h : p.beam.InFrame) : OnStatus ⟨p, .tick⟩ := by
  have hstart := Beam.event_eq_blankStarts_iff (b := p.beam)
  have hend := Beam.event_eq_blankEnds_iff (b := p.beam)
  have hafter : p.after .tick = p.advance p.beam.event := by
    rw [after, tick_of_inFrame h]
  cases he : p.beam.event with
  | blankStarts =>
      rw [he] at hafter
      exact .starts ⟨rfl, hstart.mp he⟩ (congrArg status hafter)
  | blankEnds =>
      rw [he] at hafter
      exact .clears (Or.inr (Or.inr ⟨rfl, hend.mp he⟩)) (Or.inl (congrArg status hafter))
  | pixel _ _ | quiet | astray =>
      refine .keeps ?_ ?_ ?_
      · rintro ⟨-, hb⟩
        cases he.symm.trans (hstart.mpr hb)
      · rintro (hu | hu | ⟨-, hb⟩)
        · cases hu
        · cases hu
        · cases he.symm.trans (hend.mpr hb)
      · show (p.after .tick).status = p.status
        rw [hafter, he]
        rfl

theorem onStatus_read (p : Ppu) (a : Int) : OnStatus ⟨p, .read a⟩ := by
  have hkeeps : a ≠ 0x2002 → (p.readAt a).2.status = p.status → OnStatus ⟨p, .read a⟩ := by
    intro ha hs
    refine .keeps ?_ ?_ hs
    · rintro ⟨hu, -⟩
      cases hu
    · rintro (hu | hu | ⟨hu, -⟩)
      · cases hu
      · cases hu
        exact ha rfl
      · cases hu
  rcases Register.ofInt?_cases a with hnone | ⟨r, rfl⟩
  · refine hkeeps ?_ ?_
    · rintro rfl
      cases hnone
    · rw [p.readAt_of_none hnone]
  · have hs := p.snd_readAt_toInt r
    cases r with
    | status => exact .clears (Or.inr (Or.inl rfl)) (Or.inr (congrArg Ppu.status hs))
    | data => exact hkeeps (by decide) ((congrArg Ppu.status hs).trans p.status_readData)
    | _ => exact hkeeps (by decide) (congrArg Ppu.status hs)

/-- **What a use does to the status register.** -/
theorem onStatus (h : p.beam.InFrame) (u : Use) : OnStatus ⟨p, u⟩ := by
  have hkeeps : (∀ a, u ≠ .read a) → u ≠ .tick → u ≠ .reset →
      (p.after u).status = p.status → OnStatus ⟨p, u⟩ := by
    intro hread htick hreset hs
    refine .keeps (fun hstart => htick hstart.1) ?_ hs
    rintro (hu | hu | ⟨hu, -⟩)
    · exact hreset hu
    · exact hread _ hu
    · exact htick hu
  cases u with
  | tick => exact onStatus_tick h
  | read a => exact onStatus_read p a
  | write a d =>
      refine hkeeps (by simp) (by simp) (by simp) ?_
      show (p.writeAt a d).2.status = p.status
      rcases Register.ofInt?_cases a with hnone | ⟨r, rfl⟩
      · rw [p.writeAt_of_none hnone]
      · rw [p.snd_writeAt_toInt]
        exact p.status_write r _
  | writeOam data => exact hkeeps (by simp) (by simp) (by simp) (p.status_writeOam data)
  | takeTransfer => exact hkeeps (by simp) (by simp) (by simp) rfl
  | reset => exact .clears (Or.inl rfl) (Or.inl rfl)

end

/-! ### Along a history -/

/-- The beam is in the frame, and no bit of the status register is set except that of the blank. -/
structure OnlyBlank (p : Ppu) : Prop where
  inFrame : p.beam.InFrame
  status_eq : p.status = 0 ∨ p.status = vblank

theorem getLsbD_vblank {i : Nat} (hi : i ≠ 7) : vblank.getLsbD i = false := by
  have hall : ∀ j : Fin 8, j.val ≠ 7 → vblank.getLsbD j = false := by decide
  by_cases hlt : i < 8
  · exact hall ⟨i, hlt⟩ hi
  · exact BitVec.getLsbD_of_ge _ _ (by omega)

/-- One if the status register tells of a vertical blank, and else zero. -/
def blankBit (p : Ppu) : Nat := (p.status.getLsbD 7).toNat

section
variable {p : Ppu}

theorem onlyBlank_reset (p : Ppu) : OnlyBlank p.reset where
  inFrame := by
    show Beam.InFrame {}
    decide
  status_eq := Or.inl rfl

theorem reply_of_readsStatus {m : Moment} (h : m.ReadsStatus) :
    m.reply = .ok (.byte m.unit.status) := by
  have hread := m.unit.fst_readAt_toInt (m.unit.readFault?_of_readable (r := .status) rfl)
  rw [Moment.reply, show m.use = .read 0x2002 from h]
  exact congrArg (Except.map Reply.byte) hread

namespace OnlyBlank

/-- The three things that can happen to the register if no other bit is set. -/
theorem cases_after (h : p.OnlyBlank) (u : Use) :
    ((⟨p, u⟩ : Moment).StartsBlank ∧ (p.after u).status = vblank) ∨
      ((⟨p, u⟩ : Moment).ForgetsBlank ∧ (p.after u).status = 0) ∨
      (¬ (⟨p, u⟩ : Moment).StartsBlank ∧ ¬ (⟨p, u⟩ : Moment).ForgetsBlank ∧
        (p.after u).status = p.status) := by
  cases onStatus h.inFrame u with
  | starts hstart hs =>
      refine Or.inl ⟨hstart, hs.trans ?_⟩
      rcases h.status_eq with h0 | h0 <;> rw [h0] <;> rfl
  | clears hforget hs =>
      refine Or.inr (Or.inl ⟨hforget, ?_⟩)
      rcases hs with hs | hs
      · exact hs
      · rw [hs]
        rcases h.status_eq with h0 | h0 <;> rw [h0] <;> rfl
  | keeps hstart hforget hs => exact Or.inr (Or.inr ⟨hstart, hforget, hs⟩)

theorem after (h : p.OnlyBlank) (u : Use) : (p.after u).OnlyBlank where
  inFrame := inFrame_after h.inFrame u
  status_eq := by
    rcases h.cases_after u with ⟨-, hs⟩ | ⟨-, hs⟩ | ⟨-, -, hs⟩
    · exact Or.inr hs
    · exact Or.inl hs
    · rw [hs]
      exact h.status_eq

theorem blankBit_le (h : p.OnlyBlank) : p.blankBit ≤ 1 := by
  rcases h.status_eq with h0 | h0 <;> rw [blankBit, h0] <;> decide

end OnlyBlank

/-- The status register tells of a vertical blank just if one is pending. -/
structure TellsBlank (ms : List Moment) (p : Ppu) : Prop where
  only : p.OnlyBlank
  status_iff : p.status = vblank ↔ BlankPending ms

theorem TellsBlank.after {ms : List Moment} (h : TellsBlank ms p) (u : Use) :
    TellsBlank (ms ++ [⟨p, u⟩]) (p.after u) := by
  refine ⟨h.only.after u, ?_⟩
  rw [blankPending_append]
  rcases h.only.cases_after u with ⟨hstart, hs⟩ | ⟨hforget, hs⟩ | ⟨hstart, hforget, hs⟩
  · exact iff_of_true hs (Or.inl hstart)
  · refine iff_of_false ?_ ?_
    · rw [hs]
      decide
    · rintro (hstart | ⟨-, hnot⟩)
      · exact hstart.not_forgetsBlank hforget
      · exact hnot hforget
  · rw [hs, h.status_iff]
    constructor
    · exact fun hpending => Or.inr ⟨hpending, hforget⟩
    · rintro (hs | ⟨hpending, -⟩)
      · exact absurd hs hstart
      · exact hpending

theorem tellsBlank_history (p : Ppu) (us : List Use) :
    TellsBlank (p.reset.history us) (us.foldl after p.reset) := by
  -- by induction from the last use backwards, since it is the most recent
  induction us using List.reverseRecOn with
  | nil =>
      refine ⟨p.onlyBlank_reset, iff_of_false ?_ not_blankPending_nil⟩
      show (0 : Byte) ≠ vblank
      decide
  | append_singleton us u ih =>
      rw [history_append, List.foldl_append]
      exact ih.after u

/-! ### Starts and reports -/

/-- A report uses up the bit, and only a start sets it again. -/
theorem report_add_le (h : p.OnlyBlank) (u : Use) :
    (decide (⟨p, u⟩ : Moment).ReportsBlank).toNat + (p.after u).blankBit ≤
      (decide (⟨p, u⟩ : Moment).StartsBlank).toNat + p.blankBit := by
  have hle := (h.after u).blankBit_le
  rcases h.cases_after u with ⟨hstart, -⟩ | ⟨hforget, hs⟩ | ⟨hstart, hforget, hs⟩
  · have hreport : ¬ (⟨p, u⟩ : Moment).ReportsBlank := by
      rintro ⟨hread, -⟩
      cases hstart.1.symm.trans hread
    rw [decide_eq_false hreport, decide_eq_true hstart]
    simp only [Bool.toNat_false, Bool.toNat_true]
    omega
  · have hbit : (p.after u).blankBit = 0 := by
      rw [blankBit, hs]
      rfl
    rw [hbit]
    by_cases hreport : (⟨p, u⟩ : Moment).ReportsBlank
    · obtain ⟨hread, hreply⟩ := hreport
      rw [reply_of_readsStatus hread] at hreply
      have hstatus : p.status = 0x80 := Reply.byte.inj (Except.ok.inj hreply)
      have hone : p.blankBit = 1 := by
        rw [blankBit, hstatus]
        rfl
      have := Bool.toNat_le (decide (⟨p, u⟩ : Moment).ReportsBlank)
      omega
    · rw [decide_eq_false hreport]
      exact Nat.zero_le _
  · have hreport : ¬ (⟨p, u⟩ : Moment).ReportsBlank :=
      fun hreport => hforget (Or.inr (Or.inl hreport.1))
    rw [decide_eq_false hreport, blankBit, hs]
    exact Nat.add_le_add_right (Nat.zero_le _) _

/-- **The account of the vertical blanks**: reports, and the one that may still be made, are covered
by starts, and by the report that could be made at the beginning. -/
theorem reports_add_le (h : p.OnlyBlank) (us : List Use) :
    (p.history us).countP (·.ReportsBlank) + (us.foldl after p).blankBit ≤
      (p.history us).countP (·.StartsBlank) + p.blankBit := by
  induction us generalizing p with
  | nil => exact Nat.le_refl _
  | cons u us ih =>
      have hfirst := report_add_le h u
      have hrest := ih (h.after u)
      rw [history, List.countP_cons, List.countP_cons, List.foldl_cons]
      cases hr : decide (⟨p, u⟩ : Moment).ReportsBlank <;>
        cases hs : decide (⟨p, u⟩ : Moment).StartsBlank <;>
        rw [hr, hs] at hfirst <;> simp only [Bool.toNat_false, Bool.toNat_true] at hfirst <;>
        simp only [if_true, Bool.false_eq_true, if_false] <;> omega

end

/-- **The vertical blank is reported once.**  However a picture unit is used after a reset, the bit of
the vertical blank is set just if a start of it is more recent than the last reset, the last read of
the status register and the last end of the blank, and the other bits are never set.  So a read of
the register yields the bit of the blank alone or nothing; there are no more reads that tell of a
blank than starts, and from one start to the next there is at most one. -/
theorem blank_reported_once (p : Ppu) (us : List Use) :
    let q := us.foldl after p.reset
    let ms := p.reset.history us
    (q.status.getLsbD 7 = true ↔ BlankPending ms) ∧
      (∀ i ≠ 7, q.status.getLsbD i = false) ∧
      (∀ m ∈ ms, m.ReadsStatus → m.reply = .ok (.byte 0x80) ∨ m.reply = .ok (.byte 0)) ∧
      ms.countP (·.ReportsBlank) ≤ ms.countP (·.StartsBlank) ∧
      ∀ vs, (∀ m ∈ q.history vs, ¬ m.StartsBlank) →
        (q.history vs).countP (·.ReportsBlank) ≤ 1 := by
  intro q ms
  have htells : TellsBlank ms q := tellsBlank_history p us
  have hreset := p.onlyBlank_reset
  refine ⟨?_, ?_, ?_, ?_, ?_⟩
  · rw [← htells.status_iff]
    rcases htells.only.status_eq with h0 | h0 <;> rw [h0] <;> decide
  · intro i hi
    rcases htells.only.status_eq with h0 | h0 <;> rw [h0]
    · exact BitVec.getLsbD_zero
    · exact getLsbD_vblank hi
  · intro m hm hread
    have honly : m.unit.OnlyBlank :=
      forall_history (I := OnlyBlank) (fun _ u h => h.after u) hreset us m hm
    rw [reply_of_readsStatus hread]
    rcases honly.status_eq with h0 | h0 <;> rw [h0]
    · exact Or.inr rfl
    · exact Or.inl rfl
  · have hle : ms.countP (·.ReportsBlank) + q.blankBit ≤
        ms.countP (·.StartsBlank) + p.reset.blankBit := reports_add_le hreset us
    have hzero : p.reset.blankBit = 0 := by
      rw [blankBit, show p.reset.status = 0 from rfl]
      rfl
    omega
  · intro vs hvs
    have hle : (q.history vs).countP (·.ReportsBlank) + (vs.foldl after q).blankBit ≤
        (q.history vs).countP (·.StartsBlank) + q.blankBit := reports_add_le htells.only vs
    have hnone : (q.history vs).countP (·.StartsBlank) = 0 :=
      List.countP_eq_zero.mpr fun m hm => by simpa using hvs m hm
    have hbit := htells.only.blankBit_le
    omega

/-- The first blank after a reset has just started, and none starts while the register is read
twice. -/
theorem blank_reported_once_two_reads :
    let q := (List.replicate 82183 Use.tick).foldl after (reset {})
    let vs : List Use := [.read 0x2002, .read 0x2002]
    (∀ m ∈ q.history vs, ¬ m.StartsBlank) ∧ (q.history vs).countP (·.ReportsBlank) ≤ 1 := by
  intro q vs
  have hreads : ∀ (p : Ppu), ∀ m ∈ p.history vs, ¬ m.StartsBlank := by
    intro p m hm hstart
    have huse : m.use = .read 0x2002 := by
      rcases List.mem_cons.mp hm with rfl | hm
      · rfl
      · rw [List.mem_singleton.mp hm]
    cases huse.symm.trans hstart.1
  obtain ⟨-, -, -, -, hreported⟩ := blank_reported_once {} (List.replicate 82183 .tick)
  exact ⟨hreads q, hreported vs (hreads q)⟩

/-- The start of a blank is found by the first of two reads. -/
example :
    let p : Ppu := { beam := { scanline := 241, dot := 1 } }
    (p.history [.tick, .read 0x2002, .read 0x2002]).map Moment.reply =
      [.ok .nothing, .ok (.byte 0x80), .ok (.byte 0)] := by
  rfl

end Ppu

end Famicom
