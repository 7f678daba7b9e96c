import Famicom.Proofs.Console.History
import Famicom.Proofs.Console.Step

/-! # Lockstep

However an indulgent console is used, the picture unit has drawn three dots for each cycle of the
processor, no more and no less.  The books are kept by `Session.Balanced`: the clock of the beam is
three times what the steps since the last restart have reported, and what they have reported is what
the processor has counted, except for the cycles still owed and for those that it was held up by
transfers.  Every call keeps the books balanced (`Session.Balanced.call`), and so they are balanced
throughout a history.  Two main results follow.

* `Session.dots_in_lockstep`: the position of the beam is known from the processor, and from the
  reports alone.
* `Session.interrupt_for_each_blank`: the processor takes an interrupt for each vertical blank that
  starts while interrupts are on, in the step in which it starts. -/

namespace Famicom

/-! ### Starting anew -/

namespace Console

variable {c : Console}

/-- The console has just been started: no dot is drawn, and the processor has counted the cycles of
a reset. -/
structure JustStarted (c : Console) : Prop where
  clockwork_eq : c.board.clockwork = (false, {}, false)
  cycles_eq : c.cpu.cycles = Cpu.interruptCycles
  owed_eq : c.owedCycles = 0

theorem JustStarted.atRest (h : c.JustStarted) : c.AtRest where
  indulgent := congrArg Prod.fst h.clockwork_eq
  inFrame := by
    rw [show c.board.ppu.beam = {} from congrArg (·.2.1) h.clockwork_eq]
    decide
  noRequest := congrArg (·.2.2) h.clockwork_eq
  owed_le := by
    rw [h.owed_eq]
    exact Nat.zero_le _

/-- An indulgent console can always be reset. -/
theorem reset_ok (h : c.board.Indulgent) (pc : Option Word) :
    (c.reset pc).result = .ok () ∧ (c.reset pc).console.JustStarted := by
  obtain ⟨cpu, ⟨ram, ppu, io, saveRam, cartridge⟩, owed⟩ := c
  have hb : Board.Indulgent ⟨ram, ppu.reset, io, saveRam, cartridge⟩ := h
  obtain ⟨u, hresult, hcycles⟩ := Program.done_of_indulgent hb
    ((Cpu.reset_holds pc cpu).mono (fun _ _ hs => ⟨trivial, hs⟩) fun _ _ hc => hc)
  have hclock := (Cpu.reset pc).run_clockwork cpu
    (⟨ram, ppu.reset, io, saveRam, cartridge⟩ : Board)
  rw [reset]
  cases ho : (Cpu.reset pc).run cpu (⟨ram, ppu.reset, io, saveRam, cartridge⟩ : Board) with
  | mk result cpu' board accesses =>
      rw [ho] at hresult hcycles hclock
      cases hresult
      refine ⟨rfl, ?_, hcycles, rfl⟩
      show board.clockwork = _
      rw [hclock]
      show (ppu.strict, _, _) = _
      rw [show ppu.strict = false from h]
      rfl

end Console

/-! ### The books -/

namespace Session

open Console (dots transfers interrupts nmiCalls)

/-- The books are balanced. -/
structure Balanced (s : Session) : Prop where
  rest : s.console.AtRest
  /-- Three dots for each cycle that has been reported. -/
  clock_eq : s.console.board.ppu.beam.clock = 3 * Entry.sinceRestart Console.reported s.log
  /-- What the processor has counted and what held it up is what has been reported and what is
  owed. -/
  cycles_eq : s.console.cpu.cycles +
      Console.transferCycles * Entry.sinceRestart (transfers ·.deeds) s.log =
    Cpu.interruptCycles + Entry.sinceRestart Console.reported s.log + s.console.owedCycles
  interrupts_eq : Entry.total (interrupts ·.deeds) s.log = Entry.total (nmiCalls ·.deeds) s.log
  atRest_of_mem : ∀ c, .step c ∈ s.log → c.AtRest

namespace Balanced

variable {s s' : Session}

/-- The books of a session in which a console has just been started anew. -/
theorem of_justStarted (h : s.Balanced) {c : Console} (hc : c.JustStarted) :
    Balanced ⟨c, s.log ++ [.restart]⟩ where
  rest := hc.atRest
  clock_eq := by
    rw [Entry.sinceRestart_append_restart]
    show c.board.ppu.beam.clock = 0
    rw [show c.board.ppu.beam = {} from congrArg (·.2.1) hc.clockwork_eq]
    rfl
  cycles_eq := by
    rw [Entry.sinceRestart_append_restart, Entry.sinceRestart_append_restart]
    show c.cpu.cycles + _ = _ + c.owedCycles
    rw [hc.cycles_eq, hc.owed_eq]
    rfl
  interrupts_eq := by
    rw [Entry.total_append_restart, Entry.total_append_restart]
    exact h.interrupts_eq
  atRest_of_mem := by
    intro c' hmem
    rcases List.mem_append.mp hmem with hmem | hmem
    · exact h.atRest_of_mem c' hmem
    · cases List.mem_singleton.mp hmem

/-- Calls that are no matter of time leave the books balanced. -/
theorem of_clockwork (h : s.Balanced) {c : Console}
    (hc : c.board.clockwork = s.console.board.clockwork)
    (hcycles : c.cpu.cycles = s.console.cpu.cycles) (ho : c.owedCycles = s.console.owedCycles) :
    Balanced ⟨c, s.log⟩ where
  rest := h.rest.of_clockwork hc ho
  clock_eq := (congrArg Beam.clock (Board.beam_of_clockwork hc)).trans h.clock_eq
  cycles_eq := by
    show c.cpu.cycles + _ = _ + c.owedCycles
    rw [hcycles, ho]
    exact h.cycles_eq
  interrupts_eq := h.interrupts_eq
  atRest_of_mem := h.atRest_of_mem

/-- A step leaves the books balanced, whether it is completed or not. -/
theorem of_step (h : s.Balanced) :
    Balanced ⟨s.console.step.console, s.log ++ [.step s.console]⟩ := by
  have hmem : ∀ c, .step c ∈ s.log ++ [Entry.step s.console] → c.AtRest := by
    intro c hc
    rcases List.mem_append.mp hc with hc | hc
    · exact h.atRest_of_mem c hc
    · cases List.mem_singleton.mp hc
      exact h.rest
  have hclock := h.clock_eq
  have hcycles := h.cycles_eq
  rcases h.rest.unfinished_or_completed with hu | ⟨v, hv⟩
  · refine ⟨h.rest.of_clockwork hu.clockwork_eq hu.owed_eq, ?_, ?_, ?_, hmem⟩ <;> dsimp only
    · rw [Board.beam_of_clockwork hu.clockwork_eq, hclock, Entry.sinceRestart_append_step,
        hu.reported_eq]
      rfl
    · rw [Entry.sinceRestart_append_step, Entry.sinceRestart_append_step, hu.reported_eq,
        hu.deeds_eq, hu.cycles_eq, hu.owed_eq]
      exact hcycles
    · rw [Entry.total_append_step, Entry.total_append_step, hu.deeds_eq]
      exact h.interrupts_eq
  · have hcount := hv.cycles_eq
    refine ⟨hv.rest, ?_, ?_, ?_, hmem⟩ <;> dsimp only
    · rw [hv.clock_eq, hclock, Entry.sinceRestart_append_step, hv.reported_eq]
      omega
    · rw [Entry.sinceRestart_append_step, Entry.sinceRestart_append_step, hv.reported_eq,
        Nat.mul_add]
      omega
    · rw [Entry.total_append_step, Entry.total_append_step, h.interrupts_eq, hv.interrupts_eq]

/-- A reset leaves the books balanced. -/
theorem of_reset (h : s.Balanced) {c : Console} (hc : c.board.Indulgent) (pc : Option Word) :
    Balanced ⟨(c.reset pc).console, s.log ++ Call.restartEntries (c.reset pc).result⟩ := by
  obtain ⟨hok, hstarted⟩ := c.reset_ok hc pc
  rw [hok]
  exact h.of_justStarted hstarted

/-- **Every call keeps the books balanced.** -/
theorem call (h : s.Balanced) (c : Call)
    (hc : ∀ {σ} (hooks : Console.Hooks σ) limit fuel x, c ≠ .run hooks limit fuel x) :
    (s.call c).Balanced := by
  cases c with
  | step => exact h.of_step
  | reset pc => exact h.of_reset h.rest.indulgent pc
  | insert image pc =>
      have hclock := s.console.board.clockwork_insert image
      show Balanced ⟨(s.console.insert image pc).console,
        s.log ++ Call.restartEntries (s.console.insert image pc).result⟩
      rw [Console.insert]
      rcases hi : s.console.board.insert image with ⟨_ | _, board⟩ <;> rw [hi] at hclock <;>
        dsimp only
      · rw [Call.restartEntries, List.append_nil]
        exact h.of_clockwork hclock rfl rfl
      · exact h.of_reset (h.rest.indulgent.of_clockwork hclock) pc
  | run hooks limit fuel x => exact (hc hooks limit fuel x rfl).elim
  | read a =>
      show Balanced ⟨_, s.log ++ []⟩
      rw [List.append_nil]
      exact h.of_clockwork (Board.clockwork_readAt _ a) rfl rfl
  | write a d =>
      show Balanced ⟨_, s.log ++ []⟩
      rw [List.append_nil]
      exact h.of_clockwork (Board.clockwork_writeAt _ a d) rfl rfl

end Balanced

theorem balanced_start (breakHalts : Bool) : (start false breakHalts).Balanced := by
  have h : (Console.powerOn false breakHalts).console.JustStarted :=
    (Console.reset_ok (c := ⟨{ breakHalts }, { ppu := { strict := false } }, 0⟩) rfl none).2
  refine ⟨h.atRest, ?_, ?_, rfl, fun c hc => by cases hc⟩
  · show (start false breakHalts).console.board.ppu.beam.clock = 0
    rw [show (start false breakHalts).console.board.ppu.beam = {} from
      congrArg (·.2.1) h.clockwork_eq]
    rfl
  · rw [show (start false breakHalts).console.cpu.cycles = _ from h.cycles_eq,
      show (start false breakHalts).console.owedCycles = _ from h.owed_eq]
    rfl

theorem balanced_calls (breakHalts : Bool) (cs : List Call) :
    ((start false breakHalts).calls cs).Balanced :=
  calls_preserve (fun _ c hc h => h.call c hc) (balanced_start breakHalts) cs

/-! ### What the books say -/

/-- **The picture unit keeps step with the processor**, throughout every history of a console that
is not strict.  The dots drawn are three for each cycle that the processor has counted since its
reset, but for the cycles still owed, and three for each cycle that a transfer has held it up; and
they are three for each cycle that the completed steps since then have reported.  The transfers that
are counted are those that the steps have made. -/
theorem dots_in_lockstep (breakHalts : Bool) (cs : List Call) :
    let s := (start false breakHalts).calls cs
    let beam := s.console.board.ppu.beam
    let dots := beam.frames * 262 * 341 + beam.scanline * 341 + beam.dot
    dots = 3 * ((s.console.cpu.cycles : Int) - 7 - s.console.owedCycles +
        513 * Entry.sinceRestart (transfers ·.deeds) s.log) ∧
      dots = 3 * Entry.sinceRestart Console.reported s.log ∧
      ∀ c, .step c ∈ s.log → c.Enacted := by
  intro s beam dots
  have h : s.Balanced := balanced_calls breakHalts cs
  have hdots : dots = beam.clock := by
    show beam.frames * 262 * 341 + beam.scanline * 341 + beam.dot =
      (beam.frames * 262 + beam.scanline) * 341 + beam.dot
    omega
  have hclock : beam.clock = _ := h.clock_eq
  have hcycles := h.cycles_eq
  simp only [Console.transferCycles, Cpu.interruptCycles] at hcycles
  exact ⟨by omega, by omega, fun c hc => (h.atRest_of_mem c hc).enacted⟩

/-- **One interrupt for each vertical blank that starts while interrupts are on**, throughout every
history of a console that is not strict.  No step leaves an interrupt waiting; a completed step
draws less than a frame of dots; and the processor takes one interrupt in a step that draws the
first dot of a vertical blank while interrupts are on, and none in any other step. -/
theorem interrupt_for_each_blank (breakHalts : Bool) (cs : List Call) :
    let log := ((start false breakHalts).calls cs).log
    (∀ c, .step c ∈ log →
      c.Enacted ∧
      (∀ r, c.step.result = .ok r → c.step.console.board.ppu.nmiRequested = false) ∧
      (∀ v, c.step.result = .ok (some v) →
        2 ≤ v ∧ v ≤ 528 ∧ dots c.deeds = 3 * v ∧ 3 * v < 262 * 341) ∧
      ((∃ beam : Beam, beam.scanline = 241 ∧ beam.dot = 1 ∧ .dot beam true ∈ c.deeds) →
        interrupts c.deeds = 1) ∧
      ((¬ ∃ beam : Beam, beam.scanline = 241 ∧ beam.dot = 1 ∧ .dot beam true ∈ c.deeds) →
        interrupts c.deeds = 0)) ∧
    Entry.total (interrupts ·.deeds) log = Entry.total (nmiCalls ·.deeds) log := by
  intro log
  have hb : Balanced ((start false breakHalts).calls cs) := balanced_calls breakHalts cs
  refine ⟨fun c hc => ?_, hb.interrupts_eq⟩
  rw [← Console.nmiCalls_pos_iff]
  have h : c.AtRest := hb.atRest_of_mem c hc
  rcases h.unfinished_or_completed with hu | ⟨v, hv⟩
  · refine ⟨h.enacted, fun r _ => ?_, fun v hr => ?_, fun hcalls => ?_, fun _ => ?_⟩
    · exact (Board.nmiRequested_of_clockwork hu.clockwork_eq).trans h.noRequest
    · rcases hu.result with hr' | ⟨opcode, hr'⟩ <;> cases hr'.symm.trans hr
    · rw [hu.deeds_eq] at hcalls
      cases hcalls
    · rw [hu.deeds_eq]
      rfl
  · have hle := hv.le
    have hcalls := hv.nmiCalls_le
    refine ⟨h.enacted, fun r _ => hv.rest.noRequest, fun w hr => ?_, fun hpos => ?_,
      fun hnone => ?_⟩
    · cases hv.result.symm.trans hr
      simp only [Cpu.interruptCycles, Console.transferCycles] at hle
      exact ⟨hv.two_le, hle, hv.dots_eq, by omega⟩
    · rw [hv.interrupts_eq]
      omega
    · rw [hv.interrupts_eq]
      omega

end Session

end Famicom
