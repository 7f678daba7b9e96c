import Famicom.Proofs.Clockwork
import Famicom.Proofs.Ppu.Dots

/-! # The deeds of a step

Besides running an instruction, a step of the console makes a transfer to sprite memory, draws dots
and has the processor take an interrupt.  The report of a step does not list these *deeds*, so they
are written down here, in the order in which a step does them (`Console.deeds`).  That the list is
the whole truth is `Console.settle_eq_enact`: whatever follows a completed instruction is to do the
deeds of the list, one after the other.

Of the dots those matter that call for an interrupt (`Deed.callsForNmi`).  Among the dots of less
than a frame there is at most one (`Console.count_dotDeeds_le`). -/

namespace Famicom.Console

/-- What a console does in a step besides running an instruction. -/
inductive Deed where
  /-- A page is transferred to sprite memory. -/
  | transfer (page : Byte)
  /-- The dot under the beam is drawn, while interrupts of the picture unit are on or off. -/
  | dot (beam : Beam) (nmiEnabled : Bool)
  /-- The processor takes the interrupt of the picture unit. -/
  | interrupt
deriving Repr, DecidableEq

namespace Deed

def isTransfer : Deed → Bool
  | transfer _ => true
  | _ => false

def isDot : Deed → Bool
  | dot _ _ => true
  | _ => false

def isInterrupt : Deed → Bool
  | interrupt => true
  | _ => false

/-- The vertical blank starts while interrupts of the picture unit are on. -/
def callsForNmi : Deed → Bool
  | dot beam nmiEnabled => beam.scanline == 241 && beam.dot == 1 && nmiEnabled
  | _ => false

/-- Does a deed. -/
def enact : Cpu × Board → Deed → Cpu × Board
  | (cpu, board), transfer page =>
    match (withoutRequest board).pageBytes page with
    | (.ok bytes, board) => (cpu, storeOam board bytes)
    | (.error _, board) => (cpu, board)
  | (cpu, board), dot _ _ => (cpu, { board with ppu := board.ppu.tick.2 })
  | (cpu, board), interrupt =>
    let o := Cpu.nmi.run cpu (takeNmi board).2
    (o.cpu, o.bus)

end Deed

/-! ### Writing deeds down -/

/-- The transfer that is made on a board, if any. -/
def transferDeeds (b : Board) : List Deed :=
  match b.ppu.transferRequest, (transferOam b).1 with
  | some page, .ok _ => [.transfer page]
  | _, _ => []

/-- The next dots that are drawn, until their number is reached or one of them fails. -/
def dotDeeds (p : Ppu) : Nat → List Deed
  | 0 => []
  | n + 1 =>
    match p.tick with
    | (.error _, _) => []
    | (.ok (), q) => .dot p.beam (Ppu.enablesNmi p.control) :: dotDeeds q n

/-- The interrupt that is taken on a board, if any. -/
def interruptDeeds (b : Board) : List Deed :=
  if b.ppu.nmiRequested then [.interrupt] else []

/-- What is done after an instruction of the given cycles. -/
def settleDeeds (b : Board) (cycles : Nat) : List Deed :=
  match transferOam b with
  | (.error _, _) => []
  | (.ok transfer, ready) =>
    transferDeeds b ++ dotDeeds ready.ppu ((cycles + transfer) * dotsPerCycle) ++
      match draw ready (cycles + transfer) with
      | (.error _, _) => []
      | (.ok (), drawn) => interruptDeeds drawn

/-- What a step of the console does besides running its instruction. -/
def deeds (c : Console) : List Deed :=
  match Cpu.step.run c.cpu c.board with
  | ⟨.ok (some cycles), _, board, _⟩ => settleDeeds board (cycles + c.owedCycles)
  | _ => []

/-! ### Nothing else is done -/

section enact
variable (cpu : Cpu) {b b' : Board} {n : Nat}

theorem foldl_transferDeeds (h : transferOam b = (.ok n, b')) :
    (transferDeeds b).foldl Deed.enact (cpu, b) = (cpu, b') := by
  rw [transferDeeds, h]
  cases hr : b.ppu.transferRequest with
  | none =>
      rw [transferOam_of_none hr] at h
      cases h
      rfl
  | some page =>
      rw [transferOam_of_some hr] at h
      show Deed.enact (cpu, b) (.transfer page) = _
      rw [Deed.enact]
      split at h
      · cases h
      · rename_i bytes b'' hp
        cases h
        rw [hp]

theorem foldl_dotDeeds (p : Ppu) (h : (p.tickTimes n).1 = .ok ()) :
    (dotDeeds p n).foldl Deed.enact (cpu, { b with ppu := p }) =
      (cpu, { b with ppu := (p.tickTimes n).2 }) := by
  induction n generalizing p with
  | zero => rfl
  | succ n ih =>
      rcases hq : p.tick with ⟨fault | _, q⟩
      · rw [Ppu.tickTimes, hq] at h
        cases h
      · rw [Ppu.tickTimes, hq] at h ⊢
        rw [dotDeeds, hq]
        show (dotDeeds q n).foldl Deed.enact (cpu, { b with ppu := p.tick.2 }) = _
        rw [hq]
        exact ih q h

theorem foldl_drawDeeds (h : draw b n = (.ok (), b')) :
    (dotDeeds b.ppu (n * dotsPerCycle)).foldl Deed.enact (cpu, b) = (cpu, b') := by
  obtain ⟨hok, rfl⟩ : (b.ppu.tickTimes (n * dotsPerCycle)).1 = .ok () ∧
      { b with ppu := (b.ppu.tickTimes (n * dotsPerCycle)).2 } = b' := Prod.mk.inj h
  exact foldl_dotDeeds cpu b.ppu hok

theorem foldl_interruptDeeds :
    (interruptDeeds b).foldl Deed.enact (cpu, b) = (deliverNmi cpu b).2 := by
  obtain ⟨ram, ppu, io, saveRam, cartridge⟩ := b
  cases hr : ppu.nmiRequested with
  | false =>
      cases ppu
      cases hr
      rfl
  | true =>
      simp only [interruptDeeds, deliverNmi, takeNmi, hr, if_true]
      rfl

/-- What follows a completed instruction, and the deeds of it, from what becomes of its parts. -/
theorem settle_of_parts {ready drawn board : Board} {cpu' : Cpu} {transfer owed : Nat}
    (htransfer : transferOam b = (.ok transfer, ready))
    (hdraw : draw ready (n + transfer) = (.ok (), drawn))
    (hnmi : deliverNmi cpu drawn = (.ok owed, cpu', board)) :
    settle cpu b n = (.ok (n + transfer), ⟨cpu', board, owed⟩) ∧
      settleDeeds b n =
        transferDeeds b ++ dotDeeds ready.ppu ((n + transfer) * dotsPerCycle) ++
          interruptDeeds drawn := by
  rw [settle, settleDeeds, htransfer]
  dsimp only
  rw [hdraw]
  dsimp only
  rw [hnmi]
  exact ⟨rfl, rfl⟩

/-- **The deeds are all that is done**: what follows a completed instruction, if it does not fail,
leaves the processor and the board as the listed deeds leave them. -/
theorem settle_eq_enact {v : Nat} (h : (settle cpu b n).1 = .ok v) :
    ((settle cpu b n).2.cpu, (settle cpu b n).2.board) =
      (settleDeeds b n).foldl Deed.enact (cpu, b) := by
  rcases htransfer : transferOam b with ⟨fault | transfer, ready⟩
  · rw [settle, htransfer] at h
    cases h
  rcases hdraw : draw ready (n + transfer) with ⟨fault | _, drawn⟩
  · rw [settle, htransfer] at h
    dsimp only at h
    rw [hdraw] at h
    cases h
  rcases hnmi : deliverNmi cpu drawn with ⟨fault | owed, cpu', board⟩
  · rw [settle, htransfer] at h
    dsimp only at h
    rw [hdraw] at h
    dsimp only at h
    rw [hnmi] at h
    cases h
  obtain ⟨hset, hds⟩ := settle_of_parts cpu htransfer hdraw hnmi
  rw [hset, hds, List.foldl_append, List.foldl_append, foldl_transferDeeds cpu htransfer,
    foldl_drawDeeds cpu hdraw, foldl_interruptDeeds, hnmi]

end enact

/-! ### Dots that call for an interrupt -/

section dots
variable {p : Ppu}

theorem callsForNmi_dot (b : Beam) (nmiEnabled : Bool) :
    (Deed.dot b nmiEnabled).callsForNmi = (decide b.AtBlank && nmiEnabled) := by
  by_cases h₁ : b.scanline = 241 <;> by_cases h₂ : b.dot = 1 <;>
    simp [Deed.callsForNmi, Beam.AtBlank, h₁, h₂]

theorem dotDeeds_succ (h : p.beam.InFrame) (n : Nat) :
    dotDeeds p (n + 1) =
      .dot p.beam (Ppu.enablesNmi p.control) :: dotDeeds (p.advance p.beam.event) n := by
  rw [dotDeeds, Ppu.tick_of_inFrame h]

theorem length_dotDeeds (h : p.beam.InFrame) (n : Nat) : (dotDeeds p n).length = n := by
  induction n generalizing p with
  | zero => rfl
  | succ n ih => rw [dotDeeds_succ h, List.length_cons, ih (Ppu.inFrame_advance h _)]

theorem isDot_of_mem_dotDeeds {d : Deed} {n : Nat} (hd : d ∈ dotDeeds p n) : d.isDot := by
  induction n generalizing p with
  | zero => cases hd
  | succ n ih =>
      rw [dotDeeds] at hd
      split at hd
      · cases hd
      · rcases List.mem_cons.mp hd with rfl | hd
        · rfl
        · exact ih hd

/-- After some dots an interrupt is requested if it was before, or if one of them calls for it. -/
theorem nmiRequested_tickTimes (h : p.beam.InFrame) (n : Nat) :
    (p.tickTimes n).2.nmiRequested = (p.nmiRequested || (dotDeeds p n).any Deed.callsForNmi) := by
  induction n generalizing p with
  | zero => exact (Bool.or_false _).symm
  | succ n ih =>
      rw [Ppu.tickTimes_succ_of_inFrame h, ih (Ppu.inFrame_advance h _), dotDeeds_succ h,
        List.any_cons, Ppu.nmiRequested_advance, callsForNmi_dot, Bool.or_assoc]

theorem count_dotDeeds_eq_zero (h : p.beam.InFrame) {n : Nat}
    (hn : ∀ k : Nat, k < n → (p.beam.clock + k) % Beam.dotsPerFrame ≠ 241 * 341 + 1) :
    (dotDeeds p n).countP Deed.callsForNmi = 0 := by
  induction n generalizing p with
  | zero => rfl
  | succ n ih =>
      have hfirst : ¬ p.beam.AtBlank := by
        rw [Beam.atBlank_iff h]
        simpa using hn 0 (Nat.succ_pos n)
      rw [dotDeeds_succ h, List.countP_cons, callsForNmi_dot, decide_eq_false hfirst]
      refine ih (Ppu.inFrame_advance h _) fun k hk => ?_
      have hk' : p.beam.clock + 1 + k = p.beam.clock + (k + 1 : Nat) := by omega
      rw [Ppu.beam_advance, Beam.clock_advance h, hk']
      exact hn (k + 1) (Nat.succ_lt_succ hk)

/-- In no more dots than a frame has, the vertical blank starts at most once. -/
theorem count_dotDeeds_le (h : p.beam.InFrame) {n : Nat} (hn : (n : Int) ≤ Beam.dotsPerFrame) :
    (dotDeeds p n).countP Deed.callsForNmi ≤ 1 := by
  induction n generalizing p with
  | zero => exact Nat.zero_le 1
  | succ n ih =>
      have h' := Ppu.inFrame_advance h p.beam.event
      have hn' : (n : Int) < Beam.dotsPerFrame := by omega
      rw [dotDeeds_succ h, List.countP_cons, callsForNmi_dot]
      by_cases hb : p.beam.AtBlank
      · -- the clock comes back to this remainder only after a whole frame
        have hz := count_dotDeeds_eq_zero h' (n := n) fun k hk => by
          rw [Ppu.beam_advance, Beam.clock_advance h]
          rw [Beam.atBlank_iff h] at hb
          simp only [Beam.dotsPerFrame, Beam.linesPerFrame, Beam.dotsPerLine] at hb hn' ⊢
          omega
        rw [hz]
        split <;> omega
      · rw [decide_eq_false hb]
        exact ih h' (by omega)

end dots

end Famicom.Console
