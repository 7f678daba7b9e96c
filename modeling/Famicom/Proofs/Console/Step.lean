import Famicom.Proofs.Console.Deed
import Famicom.Proofs.Cpu.Cost

/-! # One step of an indulgent console

A console whose picture unit is indulgent, whose beam is in the frame and which has no interrupt
waiting is *at rest* (`Console.AtRest`).  Its step is one of two things, and both leave it at rest.

* It is not completed (`Console.Unfinished`): the instruction halts the processor or is unknown.
  Then no cycle is counted, no dot is drawn, and the cycles owed stay owed.
* It is completed (`Console.Completed`): three dots are drawn for each of its cycles, the cycles are
  accounted for by the processor, what was owed and a transfer, and the processor takes an interrupt
  just when one of the dots calls for it. -/

namespace Famicom.Console

/-! ### Counting deeds -/

/-- Transfers to sprite memory among deeds. -/
def transfers (ds : List Deed) : Nat := ds.countP Deed.isTransfer

/-- Dots among deeds. -/
def dots (ds : List Deed) : Nat := ds.countP Deed.isDot

/-- Interrupts among deeds. -/
def interrupts (ds : List Deed) : Nat := ds.countP Deed.isInterrupt

/-- Dots that call for an interrupt among deeds. -/
def nmiCalls (ds : List Deed) : Nat := ds.countP Deed.callsForNmi

theorem nmiCalls_pos_iff (ds : List Deed) :
    0 < nmiCalls ds ↔ ∃ beam : Beam, beam.scanline = 241 ∧ beam.dot = 1 ∧ .dot beam true ∈ ds := by
  rw [nmiCalls, List.countP_pos_iff]
  constructor
  · rintro ⟨d, hd, hcalls⟩
    cases d with
    | dot beam nmiEnabled =>
        simp only [Deed.callsForNmi, Bool.and_eq_true, beq_iff_eq] at hcalls
        obtain ⟨⟨hline, hdot⟩, rfl⟩ := hcalls
        exact ⟨beam, hline, hdot, hd⟩
    | _ => cases hcalls
  · rintro ⟨beam, hline, hdot, hd⟩
    refine ⟨_, hd, ?_⟩
    rw [Deed.callsForNmi, hline, hdot]
    rfl

section count
variable {f : Deed → Bool}

theorem countP_transferDeeds (hf : ∀ page, f (.transfer page) = false) (b : Board) :
    (transferDeeds b).countP f = 0 := by
  unfold transferDeeds
  split
  · rw [List.countP_singleton, hf]
    rfl
  · rfl

theorem countP_dotDeeds (hf : ∀ beam nmiEnabled, f (.dot beam nmiEnabled) = false) (p : Ppu)
    (n : Nat) : (dotDeeds p n).countP f = 0 := by
  induction n generalizing p with
  | zero => rfl
  | succ n ih =>
      rw [dotDeeds]
      split
      · rfl
      · rw [List.countP_cons, hf, ih]
        rfl

theorem countP_interruptDeeds (hf : f .interrupt = false) (b : Board) :
    (interruptDeeds b).countP f = 0 := by
  unfold interruptDeeds
  split
  · rw [List.countP_singleton, hf]
    rfl
  · rfl

theorem dots_dotDeeds {p : Ppu} (hp : p.beam.InFrame) (n : Nat) : dots (dotDeeds p n) = n := by
  rw [dots, List.countP_eq_length.mpr fun d hd => isDot_of_mem_dotDeeds hd, length_dotDeeds hp]

variable (b drawn : Board) (p : Ppu) (n : Nat)

theorem transfers_append :
    transfers (transferDeeds b ++ dotDeeds p n ++ interruptDeeds drawn) =
      transfers (transferDeeds b) := by
  rw [transfers, List.countP_append, List.countP_append, countP_dotDeeds fun _ _ => rfl,
    countP_interruptDeeds rfl, transfers, Nat.add_zero]

theorem dots_append :
    dots (transferDeeds b ++ dotDeeds p n ++ interruptDeeds drawn) = dots (dotDeeds p n) := by
  rw [dots, List.countP_append, List.countP_append, countP_transferDeeds fun _ => rfl,
    countP_interruptDeeds rfl, dots, Nat.zero_add, Nat.add_zero]

theorem interrupts_append :
    interrupts (transferDeeds b ++ dotDeeds p n ++ interruptDeeds drawn) =
      interrupts (interruptDeeds drawn) := by
  rw [interrupts, List.countP_append, List.countP_append, countP_transferDeeds fun _ => rfl,
    countP_dotDeeds fun _ _ => rfl, interrupts, Nat.zero_add]

theorem nmiCalls_append :
    nmiCalls (transferDeeds b ++ dotDeeds p n ++ interruptDeeds drawn) =
      nmiCalls (dotDeeds p n) := by
  rw [nmiCalls, List.countP_append, List.countP_append, countP_transferDeeds fun _ => rfl,
    countP_interruptDeeds rfl, nmiCalls, Nat.zero_add, Nat.add_zero]

end count

/-! ### Parts of a step -/

section parts
variable {b : Board}

/-- A transfer on an indulgent board is made if it is requested, and takes its cycles. -/
theorem transferOam_ok (h : b.Indulgent) :
    transfers (transferDeeds b) ≤ 1 ∧
      ∃ ready, transferOam b = (.ok (transferCycles * transfers (transferDeeds b)), ready) ∧
        ready.clockwork = b.clockwork := by
  have hr := transferOam_of_indulgent h
  have ht : transferDeeds b = b.ppu.transferRequest.toList.map .transfer := by
    rw [transferDeeds, hr]
    cases b.ppu.transferRequest <;> rfl
  rw [ht]
  refine ⟨?_, (transferOam b).2, ?_, clockwork_transferOam b⟩
  · cases b.ppu.transferRequest <;> simp [transfers, Deed.isTransfer]
  · rw [← Prod.eta (transferOam b), hr]
    cases b.ppu.transferRequest <;> rfl

/-- Dots are drawn without fault.  Of less than a frame of them, one at most calls for an interrupt,
and then an interrupt is waiting. -/
theorem draw_ok (hb : b.Indulgent) (hf : b.ppu.beam.InFrame) (hq : b.ppu.nmiRequested = false)
    {n : Nat} (hn : 3 * n ≤ 89342) :
    ∃ drawn, draw b n = (.ok (), drawn) ∧ drawn.Indulgent ∧ drawn.ppu.beam.InFrame ∧
      drawn.ppu.beam.clock = b.ppu.beam.clock + 3 * n ∧
      interrupts (interruptDeeds drawn) = nmiCalls (dotDeeds b.ppu (n * dotsPerCycle)) ∧
      nmiCalls (dotDeeds b.ppu (n * dotsPerCycle)) ≤ 1 := by
  obtain ⟨hok, hf'⟩ := Ppu.tickTimes_of_inFrame hf (n * dotsPerCycle)
  have hn' : ((n * dotsPerCycle : Nat) : Int) ≤ Beam.dotsPerFrame := by
    simp only [dotsPerCycle, Beam.dotsPerFrame, Beam.linesPerFrame, Beam.dotsPerLine]
    omega
  have hle := count_dotDeeds_le hf hn'
  refine ⟨{ b with ppu := (b.ppu.tickTimes (n * dotsPerCycle)).2 }, ?_, ?_, hf', ?_, ?_, hle⟩
  · rw [← hok]
    rfl
  · exact (Ppu.strict_tickTimes hf _).trans hb
  · rw [Ppu.clock_tickTimes hf, dotsPerCycle]
    omega
  · have hany := nmiRequested_tickTimes hf (n * dotsPerCycle)
    rw [hq, Bool.false_or] at hany
    rw [interruptDeeds, hany]
    cases ha : (dotDeeds b.ppu (n * dotsPerCycle)).any Deed.callsForNmi with
    | false =>
        rw [List.any_eq_false] at ha
        rw [nmiCalls, List.countP_eq_zero.mpr ha]
        rfl
    | true =>
        have hpos := List.countP_pos_iff.mpr (List.any_eq_true.mp ha)
        rw [nmiCalls, Nat.le_antisymm hle hpos]
        rfl

/-- An interrupt that is waiting on an indulgent board is taken, and none is left. -/
theorem deliverNmi_ok (cpu : Cpu) (h : b.Indulgent) :
    ∃ cpu' b', deliverNmi cpu b =
        (.ok (Cpu.interruptCycles * interrupts (interruptDeeds b)), cpu', b') ∧
      cpu'.cycles = cpu.cycles + Cpu.interruptCycles * interrupts (interruptDeeds b) ∧
      b'.clockwork = (false, b.ppu.beam, false) := by
  have hc : (takeNmi b).2.clockwork = (false, b.ppu.beam, false) := by
    show (b.ppu.strict, b.ppu.beam, false) = _
    rw [show b.ppu.strict = false from h]
  cases hr : b.ppu.nmiRequested with
  | false =>
      refine ⟨cpu, (takeNmi b).2, ?_, ?_, hc⟩
      · rw [deliverNmi, interruptDeeds, hr]
        show (if b.ppu.nmiRequested = true then _ else _) = _
        rw [hr]
        rfl
      · rw [interruptDeeds, hr]
        rfl
  | true =>
      have hb : (takeNmi b).2.Indulgent := h
      obtain ⟨n, hn, hcycles, rfl⟩ :=
        Program.done_of_indulgent hb (Cpu.interrupt_holds Cpu.nmiVector cpu)
      have hi : interrupts (interruptDeeds b) = 1 := by
        rw [interruptDeeds, hr]
        rfl
      have hd : deliverNmi cpu b = ((Cpu.nmi.run cpu (takeNmi b).2).result,
          (Cpu.nmi.run cpu (takeNmi b).2).cpu, (Cpu.nmi.run cpu (takeNmi b).2).bus) := by
        rw [deliverNmi]
        show (if b.ppu.nmiRequested = true then _ else _) = _
        rw [if_pos hr]
        rfl
      rw [hi]
      exact ⟨_, _, hd.trans (congrArg (·, _) hn), hcycles, (Program.run_clockwork _ _ _).trans hc⟩

end parts

/-! ### After the instruction -/

/-- What is true of the deeds that follow an instruction and of how they leave the console.  The
cycles of the instruction are given with those owed. -/
structure Settled (cpu : Cpu) (b : Board) (n : Nat) (ds : List Deed)
    (r : Except Fault Nat × Console) : Prop where
  result : r.1 = .ok (n + transferCycles * transfers ds)
  transfers_le : transfers ds ≤ 1
  dots_eq : dots ds = 3 * (n + transferCycles * transfers ds)
  interrupts_eq : interrupts ds = nmiCalls ds
  nmiCalls_le : nmiCalls ds ≤ 1
  owed_eq : r.2.owedCycles = Cpu.interruptCycles * interrupts ds
  cycles_eq : r.2.cpu.cycles = cpu.cycles + r.2.owedCycles
  clock_eq : r.2.board.ppu.beam.clock = b.ppu.beam.clock + dots ds
  indulgent : r.2.board.Indulgent
  inFrame : r.2.board.ppu.beam.InFrame
  noRequest : r.2.board.ppu.nmiRequested = false

theorem settled (cpu : Cpu) {b : Board} (hb : b.Indulgent) (hf : b.ppu.beam.InFrame)
    (hq : b.ppu.nmiRequested = false) {n : Nat} (hn : n ≤ 15) :
    Settled cpu b n (settleDeeds b n) (settle cpu b n) := by
  obtain ⟨ht, ready, hready, hclock⟩ := transferOam_ok hb
  generalize hk : n + transferCycles * transfers (transferDeeds b) = k
  have hk3 : 3 * k ≤ 89342 := by
    have := Nat.mul_le_mul_left transferCycles ht
    simp only [transferCycles] at this hk
    omega
  have hbeam := Board.beam_of_clockwork hclock
  have hrf : ready.ppu.beam.InFrame := by
    rw [hbeam]
    exact hf
  obtain ⟨drawn, hdraw, hdb, hdf, hdc, hint, hcalls⟩ := draw_ok (hb.of_clockwork hclock) hrf
    ((Board.nmiRequested_of_clockwork hclock).trans hq) hk3
  obtain ⟨cpu', b', hnmi, hcycles, hb'⟩ := deliverNmi_ok cpu hdb
  rw [← hk] at hdraw
  obtain ⟨hset, hds⟩ := settle_of_parts cpu hready hdraw hnmi
  rw [hk] at hset hds
  have htr := transfers_append b drawn ready.ppu (k * dotsPerCycle)
  have hdt := (dots_append b drawn ready.ppu (k * dotsPerCycle)).trans (dots_dotDeeds hrf _)
  have hin := interrupts_append b drawn ready.ppu (k * dotsPerCycle)
  have hca := nmiCalls_append b drawn ready.ppu (k * dotsPerCycle)
  rw [← hds] at htr hdt hin hca
  have hbeam' : b'.ppu.beam = drawn.ppu.beam := congrArg (·.2.1) hb'
  rw [hset]
  exact
    { result := by rw [htr, hk]
      transfers_le := by rw [htr]; exact ht
      dots_eq := by rw [hdt, htr, hk, dotsPerCycle, Nat.mul_comm]
      interrupts_eq := by rw [hin, hint, hca]
      nmiCalls_le := by rw [hca]; exact hcalls
      owed_eq := by rw [hin]
      cycles_eq := hcycles
      clock_eq := by
        show b'.ppu.beam.clock = _
        rw [hbeam', hdc, hbeam, hdt, dotsPerCycle]
        omega
      indulgent := congrArg Prod.fst hb'
      inFrame := by
        show b'.ppu.beam.InFrame
        rw [hbeam']
        exact hdf
      noRequest := congrArg (·.2.2) hb' }

/-! ### The whole step -/

/-- The picture unit is indulgent, its beam is in the frame, no interrupt is waiting, and cycles are
owed for one interrupt at most. -/
structure AtRest (c : Console) : Prop where
  indulgent : c.board.Indulgent
  inFrame : c.board.ppu.beam.InFrame
  noRequest : c.board.ppu.nmiRequested = false
  owed_le : c.owedCycles ≤ Cpu.interruptCycles

theorem AtRest.of_clockwork {c c' : Console} (h : c.AtRest)
    (hc : c'.board.clockwork = c.board.clockwork) (ho : c'.owedCycles = c.owedCycles) :
    c'.AtRest where
  indulgent := h.indulgent.of_clockwork hc
  inFrame := by
    rw [Board.beam_of_clockwork hc]
    exact h.inFrame
  noRequest := (Board.nmiRequested_of_clockwork hc).trans h.noRequest
  owed_le := by
    rw [ho]
    exact h.owed_le

/-- The cycles that the step of a console reports; none unless it is completed. -/
def reported (c : Console) : Nat :=
  match c.step.result with
  | .ok (some v) => v
  | _ => 0

/-- The step of a console runs an instruction and does the listed deeds, and nothing else changes
the processor or the board. -/
def Enacted (c : Console) : Prop :=
  (c.step.console.cpu, c.step.console.board) =
    c.deeds.foldl Deed.enact ((Cpu.step.run c.cpu c.board).cpu, (Cpu.step.run c.cpu c.board).bus)

/-- The step of a console is not completed, and as regards time nothing has happened. -/
structure Unfinished (c : Console) : Prop where
  result : c.step.result = .ok none ∨
    ∃ opcode, c.step.result = .error (.unknownOpcode opcode c.cpu.pc)
  deeds_eq : c.deeds = []
  enacted : c.Enacted
  cycles_eq : c.step.console.cpu.cycles = c.cpu.cycles
  owed_eq : c.step.console.owedCycles = c.owedCycles
  clockwork_eq : c.step.console.board.clockwork = c.board.clockwork

/-- The step of a console is completed in `v` cycles, and all of them are accounted for. -/
structure Completed (c : Console) (v : Nat) : Prop where
  result : c.step.result = .ok (some v)
  two_le : 2 ≤ v
  le : v ≤ 8 + Cpu.interruptCycles + transferCycles
  enacted : c.Enacted
  dots_eq : dots c.deeds = 3 * v
  interrupts_eq : interrupts c.deeds = nmiCalls c.deeds
  nmiCalls_le : nmiCalls c.deeds ≤ 1
  /-- What the processor has counted, what was owed and the transfers are the cycles of the step and
  what is owed now. -/
  cycles_eq : c.step.console.cpu.cycles + c.owedCycles + transferCycles * transfers c.deeds =
    c.cpu.cycles + v + c.step.console.owedCycles
  clock_eq : c.step.console.board.ppu.beam.clock = c.board.ppu.beam.clock + 3 * v
  rest : c.step.console.AtRest

theorem Unfinished.reported_eq {c : Console} (h : c.Unfinished) : c.reported = 0 := by
  unfold reported
  rcases h.result with hr | ⟨opcode, hr⟩ <;> rw [hr]

theorem Completed.reported_eq {c : Console} {v : Nat} (h : c.Completed v) : c.reported = v := by
  rw [reported, h.result]

section cases
variable {c : Console} {cpu : Cpu} {board : Board} {accesses : List Access}

theorem step_of_fault {fault : Fault}
    (ho : Cpu.step.run c.cpu c.board = ⟨.error fault, cpu, board, accesses⟩) :
    c.step.result = .error fault ∧ c.step.console = ⟨cpu, board, c.owedCycles⟩ ∧
      c.deeds = [] := by
  obtain ⟨cpu₀, board₀, owed⟩ := c
  rw [step, deeds, ho]
  exact ⟨rfl, rfl, rfl⟩

theorem step_of_halt (ho : Cpu.step.run c.cpu c.board = ⟨.ok none, cpu, board, accesses⟩) :
    c.step.result = .ok none ∧ c.step.console = ⟨cpu, board, c.owedCycles⟩ ∧ c.deeds = [] := by
  obtain ⟨cpu₀, board₀, owed⟩ := c
  rw [step, deeds, ho]
  exact ⟨rfl, rfl, rfl⟩

theorem step_of_cycles {cycles : Nat}
    (ho : Cpu.step.run c.cpu c.board = ⟨.ok (some cycles), cpu, board, accesses⟩) :
    c.step.result = (settle cpu board (cycles + c.owedCycles)).1.map some ∧
      c.step.console = (settle cpu board (cycles + c.owedCycles)).2 ∧
      c.deeds = settleDeeds board (cycles + c.owedCycles) := by
  obtain ⟨cpu₀, board₀, owed⟩ := c
  rw [step, deeds, ho]
  exact ⟨rfl, rfl, rfl⟩

/-- A step that stops with its instruction is unfinished. -/
theorem unfinished_of_run {result : Except Fault (Option Nat)}
    (ho : Cpu.step.run c.cpu c.board = ⟨result, cpu, board, accesses⟩)
    (hresult : result = .ok none ∨ ∃ opcode, result = .error (.unknownOpcode opcode c.cpu.pc))
    (hcycles : cpu.cycles = c.cpu.cycles) (hclock : board.clockwork = c.board.clockwork) :
    c.Unfinished := by
  obtain ⟨hreported, hconsole, hdeeds⟩ :
      c.step.result = result ∧ c.step.console = ⟨cpu, board, c.owedCycles⟩ ∧ c.deeds = [] := by
    rcases hresult with rfl | ⟨opcode, rfl⟩
    · exact step_of_halt ho
    · exact step_of_fault ho
  exact
    { result := by rw [hreported]; exact hresult
      deeds_eq := hdeeds
      enacted := by rw [Enacted, hdeeds, hconsole, ho]; rfl
      cycles_eq := by rw [hconsole]; exact hcycles
      owed_eq := by rw [hconsole]
      clockwork_eq := by rw [hconsole]; exact hclock }

/-- A step whose instruction is completed is completed: what follows cannot fail. -/
theorem completed_of_run (h : c.AtRest) {cycles : Nat}
    (ho : Cpu.step.run c.cpu c.board = ⟨.ok (some cycles), cpu, board, accesses⟩)
    (hcycles : cpu.cycles = c.cpu.cycles + cycles) (h2 : 2 ≤ cycles) (h8 : cycles ≤ 8)
    (hclock : board.clockwork = c.board.clockwork) :
    c.Completed (cycles + c.owedCycles + transferCycles * transfers c.deeds) := by
  obtain ⟨hresult, hconsole, hdeeds⟩ := step_of_cycles ho
  have hbeam := Board.beam_of_clockwork hclock
  have howed := h.owed_le
  have hs := settled cpu (h.indulgent.of_clockwork hclock) (by rw [hbeam]; exact h.inFrame)
    ((Board.nmiRequested_of_clockwork hclock).trans h.noRequest)
    (n := cycles + c.owedCycles) (by simp only [Cpu.interruptCycles] at howed; omega)
  rw [← hdeeds] at hs
  have htransfer := Nat.mul_le_mul_left transferCycles hs.transfers_le
  have hcount := hs.cycles_eq
  have hdots := hs.dots_eq
  have howed' := hs.owed_eq
  have hint := Nat.mul_le_mul_left Cpu.interruptCycles (hs.interrupts_eq ▸ hs.nmiCalls_le)
  exact
    { result := by rw [hresult, hs.result]; rfl
      two_le := by omega
      le := by omega
      enacted := by rw [Enacted, hconsole, ho, settle_eq_enact cpu hs.result, hdeeds]
      dots_eq := hdots
      interrupts_eq := hs.interrupts_eq
      nmiCalls_le := hs.nmiCalls_le
      cycles_eq := by
        rw [hconsole]
        omega
      clock_eq := by
        rw [hconsole, hs.clock_eq, hbeam]
        omega
      rest := by
        rw [hconsole]
        exact ⟨hs.indulgent, hs.inFrame, hs.noRequest, by omega⟩ }

/-- **A step of a console at rest** is completed, or as regards time it is nothing. -/
theorem AtRest.unfinished_or_completed (h : c.AtRest) : c.Unfinished ∨ ∃ v, c.Completed v := by
  have hspec := Cpu.step_holds c.cpu
  have hclock := Cpu.step.run_clockwork c.cpu c.board
  have hfault : ∀ fault, (Cpu.step.run c.cpu c.board).result = .error fault → _ :=
    fun _ => Program.failed_of_indulgent h.indulgent hspec
  have hok : ∀ r, (Cpu.step.run c.cpu c.board).result = .ok r → _ := fun _ => Program.of_ok hspec
  cases ho : Cpu.step.run c.cpu c.board with
  | mk result cpu board accesses =>
      rw [ho] at hclock hfault hok
      cases result with
      | error fault =>
          obtain ⟨hcycles, hr | ⟨opcode, hop⟩⟩ := hfault fault rfl
          · exact hr.elim
          · cases hop
            exact Or.inl (unfinished_of_run ho (Or.inr ⟨opcode, rfl⟩) hcycles hclock)
      | ok r =>
          obtain ⟨hcycles, hbounds⟩ := hok r rfl
          cases r with
          | none => exact Or.inl (unfinished_of_run ho (Or.inl rfl) hcycles hclock)
          | some cycles =>
              obtain ⟨h2, h8⟩ := hbounds cycles rfl
              exact Or.inr ⟨_, completed_of_run h ho hcycles h2 h8 hclock⟩

theorem AtRest.enacted (h : c.AtRest) : c.Enacted := by
  rcases h.unfinished_or_completed with hu | ⟨v, hv⟩
  · exact hu.enacted
  · exact hv.enacted

end cases

end Famicom.Console
