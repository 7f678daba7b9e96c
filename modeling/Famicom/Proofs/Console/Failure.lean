import Famicom.Proofs.Board.Pages
import Famicom.Proofs.Console.Act
import Famicom.Proofs.Console.Step
import Famicom.Proofs.Cpu.Refusal
import Famicom.Proofs.Cpu.Safety
import Famicom.Proofs.Ppu.Picture

/-! # Steps that fail

A program can make a step fail in two places (`Fault.OfProgram`).  One is its instruction, which is
unknown or is refused an access.  Such an instruction has written nothing and no time has passed: the
console keeps what it has counted, drawn and been asked for (`Console.Keeps`).

The other is the transfer after the instruction, from a page that a strict unit refuses to show
(`Console.LosesTransfer`).  By then the cycles of the instruction have been counted, what was owed
has been dropped and the request taken, and not a dot has been drawn (`Console.Loses`).  The console
is out of step from then on, and the transfer is never made.

`Console.failed_step` says that there are these two cases, and tells them apart. -/

namespace Famicom

/-- The fault is brought about by the program that runs: it has an unknown instruction, or a strict
unit refuses it an access. -/
def Fault.OfProgram (fault : Fault) : Prop :=
  (∃ opcode pc, fault = .unknownOpcode opcode pc) ∨ fault.IsRefusal

/-! ### What reading keeps -/

/-- What no register changes when it is read: the beam, the picture, sprite memory and the request of
a transfer. -/
def Ppu.kept (p : Ppu) : Beam × Frame × Memory 0x100 × Option Byte :=
  (p.beam, p.frame, p.oam, p.transferRequest)

theorem Ppu.kept_read (p : Ppu) (r : Register) : (p.read r).2.kept = p.kept := by
  cases r with
  | data =>
      show p.readData.2.kept = p.kept
      rw [snd_readData]
      rfl
  | _ => rfl

theorem Board.kept_read (b : Board) (t : Target) : (b.read t).2.ppu.kept = b.ppu.kept := by
  cases t with
  | register r => exact b.ppu.kept_read r
  | _ => rfl

/-- What the processor does paints nothing. -/
theorem Program.run_frame {α : Type} (p : Program α) (cpu : Cpu) (b : Board) :
    (p.run cpu b).bus.ppu.frame = b.ppu.frame := by
  have hread : ∀ (b' : Board) (t : Board.Target), (b'.read t).2.ppu.frame = b'.ppu.frame :=
    fun b' t => congrArg (·.2.1) (b'.kept_read t)
  have hwrite : ∀ (b' : Board) (t : Board.Target) (d : Byte),
      (b'.write t d).ppu.frame = b'.ppu.frame := by
    intro b' t d
    cases t with
    | register r => exact b'.ppu.frame_write r d
    | _ => rfl
  exact Activity.run_preserves (I := fun b' : Board => b'.ppu.frame = b.ppu.frame)
    (fun b' _ h => (hread b' _).trans h) (fun b' _ d h => (hwrite b' _ d).trans h) (p cpu) rfl

/-! ### What can fail after an instruction -/

/-- A dot that fails does so for where the beam stands. -/
theorem Ppu.not_ofProgram_of_tickTimes {p : Ppu} {n : Nat} {fault : Fault}
    (h : (p.tickTimes n).1 = .error fault) : ¬ fault.OfProgram := by
  have htick : ∀ {p : Ppu} {fault : Fault}, p.tick.1 = .error fault → ¬ fault.OfProgram := by
    intro p fault h
    unfold tick at h
    split at h
    · unfold strayDot at h
      dsimp only at h
      rintro (⟨opcode, pc, rfl⟩ | hrefusal)
      · split_ifs at h <;> cases h
      · split_ifs at h <;> cases h <;> exact hrefusal
    · cases h
  induction n generalizing p with
  | zero => cases h
  | succ n ih =>
      rw [tickTimes] at h
      rcases ht : p.tick with ⟨f | u, q⟩
      · rw [ht] at h
        cases h
        exact htick (p := p) (by rw [ht])
      · rw [ht] at h
        exact ih h

namespace Console

/-- A transfer fails only from a page that a strict unit refuses to show.  The request is taken then,
and else the board has only been read. -/
theorem transferOam_of_error {b b' : Board} {fault : Fault}
    (h : transferOam b = (.error fault, b')) :
    ∃ page, b.ppu.transferRequest = some page ∧ b.ppu.strict = true ∧
      Board.ShowsRegisters page ∧ fault = .writeOnlyRegister 0x2005 ∧
      b'.ppu.kept = (b.ppu.beam, b.ppu.frame, b.ppu.oam, none) := by
  cases hr : b.ppu.transferRequest with
  | none =>
      rw [transferOam_of_none hr] at h
      cases h
  | some page =>
      have hresult := (withoutRequest b).pageBytes_result page
      have hkept : ((withoutRequest b).pageBytes page).2.ppu.kept = (withoutRequest b).ppu.kept :=
        Board.readFrom_preserves (I := fun b' => b'.ppu.kept = (withoutRequest b).ppu.kept)
          (fun b' t hb' => (b'.kept_read t).trans hb') rfl _ _
      rw [transferOam_of_some hr] at h
      rcases hp : (withoutRequest b).pageBytes page with ⟨f | bytes, after⟩
      · rw [hp] at h hresult hkept
        cases h
        split at hresult
        · rename_i hrefused
          cases hresult
          exact ⟨page, rfl, hrefused.1, hrefused.2, rfl, hkept⟩
        · obtain ⟨bytes, hbytes⟩ := hresult
          cases hbytes
      · rw [hp] at h
        cases h

/-- An interrupt that is waiting can always be delivered. -/
theorem deliverNmi_done (cpu : Cpu) (b : Board) : ∃ owed, (deliverNmi cpu b).1 = .ok owed := by
  unfold deliverNmi
  rcases takeNmi b with ⟨_ | _, b'⟩
  · exact ⟨0, rfl⟩
  · exact Cpu.nmi_done cpu b'

/-- What follows an instruction fails in its transfer or in its dots. -/
theorem settle_of_error {cpu : Cpu} {b : Board} {n : Nat} {fault : Fault}
    (h : (settle cpu b n).1 = .error fault) :
    (∃ b', transferOam b = (.error fault, b') ∧ (settle cpu b n).2 = ⟨cpu, b', 0⟩) ∨
      ∃ ready k, (draw ready k).1 = .error fault ∧ ready.clockwork = b.clockwork := by
  have hclock := clockwork_transferOam b
  unfold settle at h ⊢
  rcases ht : transferOam b with ⟨f | transfer, ready⟩
  · rw [ht] at h
    cases h
    exact Or.inl ⟨ready, rfl, rfl⟩
  · rw [ht] at h hclock
    dsimp only at h
    rcases hd : draw ready (n + transfer) with ⟨f | _, drawn⟩
    · rw [hd] at h
      cases h
      exact Or.inr ⟨ready, n + transfer, by rw [hd], hclock⟩
    · rw [hd] at h
      obtain ⟨owed, howed⟩ := deliverNmi_done cpu drawn
      rcases hn : deliverNmi cpu drawn with ⟨f | _, cpu', b'⟩
      · rw [hn] at howed
        cases howed
      · dsimp only at h
        rw [hn] at h
        cases h

/-! ### What is kept and what is lost -/

/-- After the one console the other has counted, drawn and stored nothing, and the same is owed and
requested. -/
structure Keeps (c c' : Console) : Prop where
  cycles_eq : c'.cpu.cycles = c.cpu.cycles
  owed_eq : c'.owedCycles = c.owedCycles
  beam_eq : c'.board.ppu.beam = c.board.ppu.beam
  frame_eq : c'.board.ppu.frame = c.board.ppu.frame
  oam_eq : c'.board.ppu.oam = c.board.ppu.oam
  transferRequest_eq : c'.board.ppu.transferRequest = c.board.ppu.transferRequest

/-- After the one console the other has counted the cycles of an instruction.  Neither for them nor
for what was owed has it drawn a dot, and nothing is owed or requested any more. -/
structure Loses (c c' : Console) : Prop where
  counts : ∃ n, 2 ≤ n ∧ n ≤ 8 ∧ c'.cpu.cycles = c.cpu.cycles + n
  owed_eq : c'.owedCycles = 0
  beam_eq : c'.board.ppu.beam = c.board.ppu.beam
  frame_eq : c'.board.ppu.frame = c.board.ppu.frame
  transferRequest_eq : c'.board.ppu.transferRequest = none

/-- The clocks agree if so many transfers have been made: three dots have been drawn for each cycle
that the processor has counted since its reset, except for those still owed, and for each cycle that
a transfer has held it up. -/
def InStep (c : Console) (transfers : Nat) : Prop :=
  c.board.ppu.beam.clock =
    3 * ((c.cpu.cycles : Int) - Cpu.interruptCycles - c.owedCycles + transferCycles * transfers)

/-- The next instruction is completed and leaves the request of a transfer from a page that a strict
unit refuses to show. -/
def LosesTransfer (c : Console) : Prop :=
  c.board.ppu.strict = true ∧
    ∃ n page, (Cpu.step.run c.cpu c.board).result = .ok (some n) ∧
      (Cpu.step.run c.cpu c.board).bus.ppu.transferRequest = some page ∧ Board.ShowsRegisters page

/-- A console that has been switched on and used in any way. -/
def Reachable (c : Console) : Prop :=
  ∃ strict breakHalts acts, c = (powerOn strict breakHalts).console.acts acts

section
variable {c c' : Console} {n : Nat}

theorem Keeps.inStep (h : c.Keeps c') (hc : c.InStep n) : c'.InStep n := by
  rw [InStep, h.beam_eq, h.cycles_eq, h.owed_eq]
  exact hc

theorem Loses.not_keeps (h : c.Loses c') : ¬ c.Keeps c' := by
  obtain ⟨n, h2, -, hcycles⟩ := h.counts
  intro hk
  have := hk.cycles_eq
  omega

/-- Clocks that agreed do not agree any more. -/
theorem Loses.not_inStep (h : c.Loses c') (hc : c.InStep n) : ¬ c'.InStep n := by
  obtain ⟨m, h2, -, hcycles⟩ := h.counts
  intro hc'
  rw [InStep, h.beam_eq, h.owed_eq, hcycles] at hc'
  rw [InStep] at hc
  push_cast at hc'
  omega

theorem Reachable.inFrame (h : c.Reachable) : c.InFrame := by
  obtain ⟨strict, breakHalts, acts, rfl⟩ := h
  exact inFrame_acts (inFrame_reset _ none) acts

end

/-! ### The step -/

section
variable {c : Console} {fault : Fault}

/-- The fault of an instruction is of the program, and the step keeps what there was. -/
theorem keeps_of_instruction_error (h : (Cpu.step.run c.cpu c.board).result = .error fault) :
    c.step.result = .error fault ∧ fault.OfProgram ∧ c.Keeps c.step.console := by
  obtain ⟨s, ⟨hcycles, -⟩, -⟩ := Program.of_error (Cpu.step_holds c.cpu) h
  have hkept : (Cpu.step.run c.cpu c.board).bus.ppu.kept = c.board.ppu.kept :=
    Cpu.preserved_of_step_error (I := fun b => b.ppu.kept = c.board.ppu.kept)
      (fun b _ hb => (b.kept_read _).trans hb) rfl h
  have hends := Cpu.Call.ends_on_board .step c.cpu (b := c.board) rfl
  have hfault : fault.OfProgram := by
    rcases hends.fault_cases fault h with ⟨opcode, rfl⟩ | ⟨-, r, ⟨-, rfl⟩ | ⟨-, rfl⟩⟩
    · exact Or.inl ⟨opcode, _, rfl⟩
    · exact Or.inr trivial
    · exact Or.inr trivial
  rcases ho : Cpu.step.run c.cpu c.board with ⟨result, cpu, board, accesses⟩
  rw [ho] at h hcycles hkept
  cases h
  obtain ⟨hresult, hconsole, -⟩ := step_of_fault ho
  refine ⟨hresult, hfault, ?_⟩
  rw [hconsole]
  exact
    { cycles_eq := hcycles
      owed_eq := rfl
      beam_eq := congrArg (·.1) hkept
      frame_eq := congrArg (·.2.1) hkept
      oam_eq := congrArg (·.2.2.1) hkept
      transferRequest_eq := congrArg (·.2.2.2) hkept }

/-- If the instruction is completed, the step fails in what follows it. -/
theorem settle_of_step_error {cpu : Cpu} {board : Board} {accesses : List Access} {n : Nat}
    (ho : Cpu.step.run c.cpu c.board = ⟨.ok (some n), cpu, board, accesses⟩)
    (h : c.step.result = .error fault) :
    (settle cpu board (n + c.owedCycles)).1 = .error fault ∧
      c.step.console = (settle cpu board (n + c.owedCycles)).2 := by
  obtain ⟨hresult, hconsole, -⟩ := step_of_cycles ho
  refine ⟨?_, hconsole⟩
  rw [hresult] at h
  cases hs : (settle cpu board (n + c.owedCycles)).1 with
  | error f =>
      rw [hs] at h
      cases h
      rfl
  | ok v =>
      rw [hs] at h
      cases h

/-- Then it fails in its transfer, or in a dot that the beam is out of place for. -/
theorem step_error_of_cycles {n : Nat}
    (hn : (Cpu.step.run c.cpu c.board).result = .ok (some n)) (h : c.step.result = .error fault) :
    (fault = .writeOnlyRegister 0x2005 ∧ c.LosesTransfer ∧ c.Loses c.step.console) ∨
      (¬ fault.OfProgram ∧ ¬ c.InFrame) := by
  obtain ⟨hcycles, hbounds⟩ := Program.of_ok (Cpu.step_holds c.cpu) hn
  obtain ⟨h2, h8⟩ := hbounds n rfl
  have hclock := Cpu.step.run_clockwork c.cpu c.board
  have hframe := Cpu.step.run_frame c.cpu c.board
  rcases ho : Cpu.step.run c.cpu c.board with ⟨result, cpu, board, accesses⟩
  rw [ho] at hn hcycles hclock hframe
  cases hn
  obtain ⟨hsettle, hconsole⟩ := settle_of_step_error ho h
  rcases settle_of_error hsettle with ⟨b', ht, hb'⟩ | ⟨ready, k, hdraw, hready⟩
  · obtain ⟨page, hpage, hstrict, hshows, hfault, hkept⟩ := transferOam_of_error ht
    refine Or.inl ⟨hfault, ⟨?_, n, page, ?_, ?_, hshows⟩, ?_⟩
    · exact (congrArg Prod.fst hclock).symm.trans hstrict
    · rw [ho]
    · rw [ho]
      exact hpage
    · rw [hconsole, hb']
      exact
        { counts := ⟨n, h2, h8, hcycles⟩
          owed_eq := rfl
          beam_eq := (congrArg (·.1) hkept).trans (Board.beam_of_clockwork hclock)
          frame_eq := (congrArg (·.2.1) hkept).trans hframe
          transferRequest_eq := congrArg (·.2.2.2) hkept }
  · refine Or.inr ⟨Ppu.not_ofProgram_of_tickTimes (p := ready.ppu) hdraw, fun hin => ?_⟩
    have hbeam := inFrame_of_clockwork hin (hready.trans hclock)
    cases (draw_of_inFrame hbeam k).1.symm.trans hdraw

/-- **What a failing step loses.**  On a console that has been switched on and used in any way, a
step fails for the program alone.  A step that fails for the program, on a console in any state,
keeps the time, the requests, the picture and sprite memory just if it does not lose a transfer, and
then clocks that agreed agree still.  If it loses one, the cycles of the instruction, what was owed
and the request are gone, and clocks that agreed do not agree any more. -/
theorem failed_step (h : c.step.result = .error fault) :
    (c.Reachable → fault.OfProgram) ∧
      (fault.OfProgram →
        (c.Keeps c.step.console ↔ ¬ c.LosesTransfer) ∧
        (¬ c.LosesTransfer → ∀ transfers, c.InStep transfers → c.step.console.InStep transfers) ∧
        (c.LosesTransfer → fault = .writeOnlyRegister 0x2005 ∧ c.Loses c.step.console ∧
          ∀ transfers, c.InStep transfers → ¬ c.step.console.InStep transfers)) := by
  cases hrun : (Cpu.step.run c.cpu c.board).result with
  | error f =>
      obtain ⟨hresult, hfault, hkeeps⟩ := keeps_of_instruction_error hrun
      cases hresult.symm.trans h
      have hnot : ¬ c.LosesTransfer := by
        rintro ⟨-, n, page, hn, -⟩
        cases hrun.symm.trans hn
      exact ⟨fun _ => hfault, fun _ => ⟨iff_of_true hkeeps hnot, fun _ _ hin => hkeeps.inStep hin,
        fun hloses => absurd hloses hnot⟩⟩
  | ok r =>
      cases r with
      | none =>
          rcases ho : Cpu.step.run c.cpu c.board with ⟨result, cpu, board, accesses⟩
          rw [ho] at hrun
          cases hrun
          cases (step_of_halt ho).1.symm.trans h
      | some n =>
          rcases step_error_of_cycles hrun h with ⟨hfault, hlost, hloses⟩ | ⟨hnot, hastray⟩
          · refine ⟨fun _ => ?_, fun _ => ⟨?_, fun hn => absurd hlost hn, fun _ => ?_⟩⟩
            · rw [hfault]
              exact Or.inr trivial
            · exact iff_of_false hloses.not_keeps (not_not_intro hlost)
            · exact ⟨hfault, hloses, fun _ hin => hloses.not_inStep hin⟩
          · exact ⟨fun hreach => absurd hreach.inFrame hastray, fun hp => absurd hp hnot⟩

end

/-- There are steps that keep everything: here the instruction is unknown, and the transfer that
waits goes on waiting. -/
theorem failed_step_unknown :
    let c := (powerOn true true).console.acts
      [.call (.write 0 0x02), .call (.reset (some 0)), .call (.write 0x4014 0x20)]
    c.step.result = .error (.unknownOpcode 0x02 0) ∧ c.Keeps c.step.console := by
  intro c
  have h : c.step.result = .error (.unknownOpcode 0x02 0) := by rfl
  have hrun : (Cpu.step.run c.cpu c.board).result = .error (.unknownOpcode 0x02 0) := by
    decide +kernel
  have hkept : ¬ c.LosesTransfer := by
    rintro ⟨-, n, page, hn, -⟩
    cases hrun.symm.trans hn
  obtain ⟨-, hprogram⟩ := failed_step h
  exact ⟨h, (hprogram (Or.inl ⟨0x02, 0, rfl⟩)).1.mpr hkept⟩

/-- Not all of them do: here the instruction does nothing and is completed, the transfer that has
been waiting is refused, and two cycles and the request are lost over it. -/
theorem failed_transfer_is_lost :
    let c := (powerOn true true).console.acts
      [.call (.write 0 0xEA), .call (.reset (some 0)), .call (.write 0x4014 0x20)]
    c.Reachable ∧ c.InStep 0 ∧ c.board.ppu.transferRequest = some 0x20 ∧
      c.step.result = .error (.writeOnlyRegister 0x2005) ∧
      c.step.console.cpu.cycles = c.cpu.cycles + 2 ∧
      c.step.console.board.ppu.transferRequest = none ∧
      ¬ c.Keeps c.step.console ∧ ¬ c.step.console.InStep 0 := by
  intro c
  have hcycles : c.step.console.cpu.cycles = c.cpu.cycles + 2 := by rfl
  refine ⟨⟨true, true, _, rfl⟩, by rfl, by rfl, by rfl, hcycles, by rfl, ?_, ?_⟩
  · intro hkeeps
    have := hkeeps.cycles_eq.symm.trans hcycles
    omega
  · unfold InStep
    decide +kernel

end Console

end Famicom
