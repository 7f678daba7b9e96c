import Famicom.Proofs.Board.Quiet
import Famicom.Proofs.Console.Act
import Famicom.Proofs.Cpu.Scratch

/-! # Starting anew

A reset keeps the memories and the settings of a console and nothing else.  What the console is
after it can be written down from these alone (`Console.restarted`), whatever registers, latches,
requests and debts there were before, and the vector that is looked up is in the cartridge.  So two
consoles that agree in their memories are one and the same console after a reset, and no use of any
kind can tell them apart.  Nor can what is left over from their last instructions, since a step does
the same whatever it finds of that (`Console.reset_erases_history`). -/

namespace Famicom

open Program

/-! ### The processor -/

namespace Board

/-- The word that the processor finds at an address. -/
def shownWord (b : Board) (a : Word) : Word := .ofBytes (b.shown (a + 1)) (b.shown a)

end Board

namespace Cpu

/-- The processor that begins at an address. -/
def fresh (breakHalts : Bool) (pc : Word) : Cpu where
  sp := 0xFD
  pc := pc
  flags := .initial
  cycles := interruptCycles
  breakHalts := breakHalts

/-- A reset of the processor is never refused anything, and of the processor it keeps what the
break instruction does. -/
theorem run_reset (pc : Option Word) (cpu : Cpu) (b : Board) :
    ∃ xs, (reset pc).run cpu b =
      ⟨.ok (), fresh cpu.breakHalts (pc.getD (b.shownWord resetVector)), b, xs⟩ := by
  cases pc with
  | some pc => exact ⟨[], rfl⟩
  | none =>
      have hlow : Board.Quiet resetVector := by decide
      have hhigh : Board.Quiet (resetVector + 1) := by decide
      refine ⟨[.read resetVector (b.shown resetVector),
        .read (resetVector + 1) (b.shown (resetVector + 1))], ?_⟩
      simp only [reset, readWord, run_bind, run_modify, Outcome.andThen, run_pure]
      rw [run_read_of_quiet _ b hlow]
      simp only
      rw [run_read_of_quiet _ b hhigh]
      rfl

end Cpu

/-! ### The console -/

namespace Console

/-- Two consoles with the same settings and with the same contents of all memories. -/
structure SameMemories (c c' : Console) : Prop where
  breakHalts_eq : c.cpu.breakHalts = c'.cpu.breakHalts
  strict_eq : c.board.ppu.strict = c'.board.ppu.strict
  ram_eq : c.board.ram = c'.board.ram
  io_eq : c.board.io = c'.board.io
  saveRam_eq : c.board.saveRam = c'.board.saveRam
  cartridge_eq : c.board.cartridge = c'.board.cartridge
  videoMemory_eq : c.board.ppu.memory = c'.board.ppu.memory
  oam_eq : c.board.ppu.oam = c'.board.ppu.oam

/-- The board whose picture unit has been reset. -/
def restartedBoard (c : Console) : Board := { c.board with ppu := c.board.ppu.reset }

/-- The console after a reset. -/
def restarted (c : Console) (pc : Option Word) : Console where
  cpu := .fresh c.cpu.breakHalts (pc.getD (c.restartedBoard.shownWord Cpu.resetVector))
  board := c.restartedBoard

variable {c c' : Console} (pc : Option Word)

/-- What a reset does. -/
theorem reset_eq (c : Console) : c.reset pc = { result := .ok (), console := c.restarted pc } := by
  obtain ⟨cpu, ⟨ram, ppu, io, saveRam, cartridge⟩, owed⟩ := c
  obtain ⟨xs, hrun⟩ :=
    Cpu.run_reset pc cpu (⟨ram, ppu.reset, io, saveRam, cartridge⟩ : Board)
  rw [reset, hrun]
  rfl

theorem sameMemories_restarted (c : Console) : c.SameMemories (c.restarted pc) := by
  constructor <;> rfl

theorem SameMemories.restartedBoard_eq (h : c.SameMemories c') :
    c'.restartedBoard = c.restartedBoard := by
  have hppu : c'.board.ppu.reset = c.board.ppu.reset := by
    simp only [Ppu.reset, h.strict_eq, h.videoMemory_eq, h.oam_eq]
  simp only [restartedBoard, hppu, h.ram_eq, h.io_eq, h.saveRam_eq, h.cartridge_eq]

theorem SameMemories.restarted_eq (h : c.SameMemories c') : c'.restarted pc = c.restarted pc := by
  simp only [restarted, h.restartedBoard_eq, h.breakHalts_eq]

/-- **A reset erases the past.**  Take two consoles with the same settings and memories, whatever
else they hold.  A reset cannot fail, changes none of the memories, and makes one console of the two,
with nothing requested and nothing owed; so all that is done afterwards yields the same on both and
leaves them the same.  What the processor keeps at hand of an instruction is not reset, but makes no
difference to the next one. -/
theorem reset_erases_history {c c' : Console} (h : c.SameMemories c') (pc : Option Word) :
    (c.reset pc).result = .ok () ∧ (c'.reset pc).result = .ok () ∧
      c.SameMemories (c.reset pc).console ∧
      (c'.reset pc).console = (c.reset pc).console ∧
      (∀ acts, Act.transcript acts (c'.reset pc).console =
        Act.transcript acts (c.reset pc).console) ∧
      (c.reset pc).console.board.ppu.transferRequest = none ∧
      (c.reset pc).console.board.ppu.nmiRequested = false ∧
      (c.reset pc).console.owedCycles = 0 ∧
      ∀ leftOver : Cpu.Scratch, Prod.fst <$> Cpu.stepWith leftOver = Cpu.step := by
  have heq : c'.restarted pc = c.restarted pc := h.restarted_eq pc
  rw [reset_eq, reset_eq, heq]
  refine ⟨rfl, rfl, c.sameMemories_restarted pc, rfl, ?_, rfl, rfl, rfl, Cpu.fst_stepWith⟩
  intro acts
  rfl

/-- There are such consoles: here latches have been written and a transfer and interrupts called for
on the one, and the other has just been switched on. -/
theorem reset_erases_history_request :
    let c := (Session.start true true).console
    let c' := ((Session.start true true).calls
      [.write 0x2006 0x21, .write 0x4014 0x02, .write 0x2000 0x80]).console
    c'.board.ppu.transferRequest = some 2 ∧ c.SameMemories c' ∧
      (c'.reset none).console = (c.reset none).console := by
  intro c c'
  have hsame : c.SameMemories c' := by
    constructor <;> rfl
  obtain ⟨-, -, -, hconsole, -⟩ := reset_erases_history hsame none
  exact ⟨rfl, hsame, hconsole⟩

end Console

end Famicom
