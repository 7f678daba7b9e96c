import Famicom.Board
import Famicom.Cpu.Notice

/-! # The console

The processor and its board, kept in step: the picture unit draws three dots for each cycle of the
processor.  A step runs one instruction; makes the transfer to sprite memory that it requested, if
any, which holds the processor up for 513 cycles; draws the dots of all cycles spent; and delivers
the interrupt that the picture unit requested meanwhile.  The cycles of that interrupt are owed:
they belong to the time of the next step.

`run` repeats steps until one of three things ends it: a limit on their number, a question asked
before each step, or an instruction that halts the processor.  What is to be done besides, such as
showing the picture, is given as hooks, which share a state of their own. -/

namespace Famicom

/-- The state of the console. -/
structure Console where
  cpu : Cpu
  board : Board
  /-- Cycles of an interrupt whose dots have not been drawn. -/
  owedCycles : Nat := 0
deriving Repr, DecidableEq

/-- What became of an operation on the console. -/
structure Console.Report (α : Type) where
  result : Except Fault α
  console : Console
  /-- What an observer of the processor is told. -/
  notices : List Notice := []

namespace Console

/-- Dots drawn in a cycle of the processor. -/
def dotsPerCycle : Nat := 3

/-- Cycles of a transfer to sprite memory. -/
def transferCycles : Nat := 513

/-- Cycles per second. -/
def clockRate : Int := 1789773

/-! ### The parts of a step -/

/-- Makes the transfer to sprite memory that is requested, if any.  The result is its cycles. -/
def transferOam : Board → Except Fault Nat × Board
  | ⟨ram, ppu, io, saveRam, cartridge⟩ =>
    let (request, ppu) := ppu.takeTransfer
    match request with
    | none => (.ok 0, ⟨ram, ppu, io, saveRam, cartridge⟩)
    | some page =>
      match Board.pageBytes ⟨ram, ppu, io, saveRam, cartridge⟩ page with
      | (.error fault, board) => (.error fault, board)
      | (.ok bytes, ⟨ram, ppu, io, saveRam, cartridge⟩) =>
        (.ok transferCycles, ⟨ram, ppu.writeOam bytes, io, saveRam, cartridge⟩)

/-- Draws the dots of a number of cycles. -/
def draw : Board → Nat → Except Fault Unit × Board
  | ⟨ram, ppu, io, saveRam, cartridge⟩, cycles =>
    let (result, ppu) := ppu.tickTimes (cycles * dotsPerCycle)
    (result, ⟨ram, ppu, io, saveRam, cartridge⟩)

/-- Takes the request of an interrupt back from the picture unit. -/
def takeNmi : Board → Bool × Board
  | ⟨ram, ppu, io, saveRam, cartridge⟩ =>
    (ppu.nmiRequested, ⟨ram, { ppu with nmiRequested := false }, io, saveRam, cartridge⟩)

/-- Delivers an interrupt if the picture unit has requested one.  The result is the cycles owed for
it. -/
def deliverNmi (cpu : Cpu) (board : Board) : Except Fault Nat × Cpu × Board :=
  let (requested, board) := takeNmi board
  if requested then
    let o := Cpu.nmi.run cpu board
    (o.result, o.cpu, o.bus)
  else (.ok 0, cpu, board)

/-- What follows an instruction of the given cycles: transfer, dots and interrupt.  The result is
the cycles of the step. -/
def settle (cpu : Cpu) (board : Board) (cycles : Nat) : Except Fault Nat × Console :=
  match transferOam board with
  | (.error fault, board) => (.error fault, ⟨cpu, board, 0⟩)
  | (.ok transfer, board) =>
    match draw board (cycles + transfer) with
    | (.error fault, board) => (.error fault, ⟨cpu, board, 0⟩)
    | (.ok (), board) =>
      match deliverNmi cpu board with
      | (.error fault, cpu, board) => (.error fault, ⟨cpu, board, 0⟩)
      | (.ok owed, cpu, board) => (.ok (cycles + transfer), ⟨cpu, board, owed⟩)

/-! ### Operations -/

/-- Runs one instruction and all that goes with it.  The result is the cycles, or nothing if the
instruction halts the processor. -/
def step : Console → Report (Option Nat)
  | ⟨cpu, board, owed⟩ =>
    let o := Cpu.step.run cpu board
    let notices := o.stepNotices cpu
    match o with
    | ⟨.error fault, cpu, board, _⟩ => ⟨.error fault, ⟨cpu, board, owed⟩, notices⟩
    | ⟨.ok none, cpu, board, _⟩ => ⟨.ok none, ⟨cpu, board, owed⟩, notices⟩
    | ⟨.ok (some cycles), cpu, board, _⟩ =>
      let (result, console) := settle cpu board (cycles + owed)
      ⟨result.map some, console, notices⟩

/-- Starts anew, at an address or where the reset vector leads.  Memories keep their contents. -/
def reset : Console → Option Word → Report Unit
  | ⟨cpu, ⟨ram, ppu, io, saveRam, cartridge⟩, owed⟩, pc =>
    let o := (Cpu.reset pc).run cpu (⟨ram, ppu.reset, io, saveRam, cartridge⟩ : Board)
    match o with
    | ⟨.error fault, cpu, board, _⟩ => { result := .error fault, console := ⟨cpu, board, owed⟩ }
    | ⟨.ok (), cpu, board, _⟩ => { result := .ok (), console := ⟨cpu, board, 0⟩ }

/-- Puts a cartridge in and starts anew.  An image that does not fit changes nothing. -/
def insert : Console → Array Byte → Option Word → Report Unit
  | ⟨cpu, board, owed⟩, image, pc =>
    match board.insert image with
    | (.error fault, board) => { result := .error fault, console := ⟨cpu, board, owed⟩ }
    | (.ok (), board) => reset ⟨cpu, board, owed⟩ pc

/-- A console that has just been switched on, without a cartridge. -/
def powerOn (strict breakHalts : Bool) : Report Unit :=
  reset ⟨{ breakHalts }, { ppu := { strict } }, 0⟩ none

/-! ### Running -/

/-- What is called during a run.  The calls share a state of type `σ`, and cannot change the
console. -/
structure Hooks (σ : Type) where
  /-- Asked before each step whether the run is to end. -/
  shouldStop : Option (σ → Bool × σ) := none
  /-- Shown the picture after each step. -/
  draw : Option (Frame → σ → σ) := none
  /-- Told the cycles of each step. -/
  pace : Option (Nat → σ → σ) := none
  /-- Told what the processor does. -/
  observe : Notice → σ → σ := fun _ s => s

/-- How a run ended. -/
inductive Ending where
  /-- After a number of steps, by the limit, the question or a halt. -/
  | finished (steps : Nat)
  | failed (fault : Fault)
  /-- The steps that were to be tried are used up. -/
  | unfinished
deriving Repr, DecidableEq

namespace Hooks

variable {σ : Type}

/-- Asks whether the run is to end. -/
def ask (h : Hooks σ) (s : σ) : Bool × σ :=
  match h.shouldStop with
  | none => (false, s)
  | some shouldStop => shouldStop s

/-- Tells the notices of a step. -/
def tell (h : Hooks σ) (notices : List Notice) (s : σ) : σ :=
  notices.foldl (fun s notice => h.observe notice s) s

/-- Shows the picture after a step, and tells the cycles of the step. -/
def showStep (h : Hooks σ) (frame : Frame) (cycles : Nat) (s : σ) : σ :=
  let s :=
    match h.draw with
    | none => s
    | some draw => draw frame s
  match h.pace with
  | none => s
  | some pace => pace cycles s

end Hooks

/-- Whether a number of steps reaches the limit. -/
def atLimit (limit : Option Int) (steps : Nat) : Bool :=
  match limit with
  | none => false
  | some limit => limit ≤ steps

/-- Runs at most `fuel` further steps after the given number of steps. -/
def runFrom {σ : Type} (hooks : Hooks σ) (limit : Option Int) (steps : Nat) (console : Console)
    (s : σ) : Nat → Ending × Console × σ
  | 0 => (if atLimit limit steps then .finished steps else .unfinished, console, s)
  | fuel + 1 =>
    if atLimit limit steps then (.finished steps, console, s)
    else
      match hooks.ask s with
      | (true, s) => (.finished steps, console, s)
      | (false, s) =>
        match console.step with
        | ⟨.error fault, console, notices⟩ =>
          (.failed fault, console, hooks.tell notices s)
        | ⟨.ok none, console, notices⟩ =>
          (.finished steps, console, hooks.tell notices s)
        | ⟨.ok (some cycles), console, notices⟩ =>
          let s := hooks.showStep console.board.ppu.frame cycles (hooks.tell notices s)
          runFrom hooks limit (steps + 1) console s fuel

/-- Runs until the limit is reached, the question is answered by yes, or the processor halts; but
at most `fuel` steps. -/
def run {σ : Type} (hooks : Hooks σ) (limit : Option Int) (fuel : Nat) (console : Console)
    (s : σ) : Ending × Console × σ :=
  runFrom hooks limit 0 console s fuel

end Console

end Famicom
