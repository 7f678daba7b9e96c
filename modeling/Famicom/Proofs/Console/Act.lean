import Famicom.Proofs.Board.Cells
import Famicom.Proofs.Console.Strictness
import Famicom.Proofs.Cpu.Trail

/-! # Uses of a console and of its parts

A console is used by calls, but its parts are open to view as well: a debugger has the processor run
alone, reads and writes the registers of the picture unit and looks at the picture.  An `Act` is a
use of either kind, and `Console.acts` yields the console that a number of them leads to.

Whatever is done, the beam stays in the frame (`Console.inFrame_acts`), so that dots can always be
drawn. -/

namespace Famicom

/-- What can be done with a console and with its parts. -/
inductive Act : Type 1 where
  | call (made : Call)
  /-- The picture unit is used beside the console. -/
  | picture (use : Ppu.Use)
  /-- The processor is used beside the console. -/
  | order (given : Cpu.Order)
  /-- The picture is looked at. -/
  | snapshot

namespace Act

/-- What a use of a console yields. -/
inductive Reply : Type 1 where
  | called (reply : Call.Reply)
  | pictured (reply : Except Fault Ppu.Reply)
  | obeyed (result : Except Fault (Option Nat)) (accesses : List Access)
  | snapped (frame : Frame)

/-- What is yielded by a use of a console. -/
def reply : Act → Console → Reply
  | .call made, c => .called (made.reply c)
  | picture use, c => .pictured (c.board.ppu.answer use)
  | .order given, c =>
    let o := given.program.run c.cpu c.board
    .obeyed o.result o.accesses
  | snapshot, c => .snapped c.board.ppu.frame

/-- The console after a use. -/
def console : Act → Console → Console
  | .call made, c => made.console c
  | picture use, c => { c with board := { c.board with ppu := c.board.ppu.after use } }
  | .order given, c =>
    let o := given.program.run c.cpu c.board
    { c with cpu := o.cpu, board := o.bus }
  | snapshot, c => c

/-- What each of some uses yields, with the console after it. -/
def transcript : List Act → Console → List (Reply × Console)
  | [], _ => []
  | act :: acts, c => (act.reply c, act.console c) :: transcript acts (act.console c)

end Act

/-! ### The beam -/

namespace Console

/-- The beam is in the frame. -/
def InFrame (c : Console) : Prop := c.board.ppu.beam.InFrame

theorem inFrame_of_clockwork {b b' : Board} (h : b.ppu.beam.InFrame)
    (hc : b'.clockwork = b.clockwork) : b'.ppu.beam.InFrame := by
  rw [Board.beam_of_clockwork hc]
  exact h

/-- Dots can be drawn. -/
theorem draw_of_inFrame {b : Board} (h : b.ppu.beam.InFrame) (n : Nat) :
    (draw b n).1 = .ok () ∧ (draw b n).2.ppu.beam.InFrame :=
  Ppu.tickTimes_of_inFrame h (n * dotsPerCycle)

theorem beam_deliverNmi (cpu : Cpu) (b : Board) :
    (deliverNmi cpu b).2.2.ppu.beam = b.ppu.beam := by
  have htake : (takeNmi b).2.ppu.beam = b.ppu.beam := rfl
  unfold deliverNmi
  rcases ht : takeNmi b with ⟨_ | _, b'⟩
  · rw [ht] at htake
    exact htake
  · rw [ht] at htake
    show (Cpu.nmi.run cpu b').bus.ppu.beam = b.ppu.beam
    rw [Board.beam_of_clockwork (Cpu.nmi.run_clockwork cpu b')]
    exact htake

theorem inFrame_settle (cpu : Cpu) {b : Board} (h : b.ppu.beam.InFrame) (n : Nat) :
    (settle cpu b n).2.InFrame := by
  have htransfer := inFrame_of_clockwork h (clockwork_transferOam b)
  unfold settle
  rcases ht : transferOam b with ⟨fault | transfer, ready⟩
  · rw [ht] at htransfer
    exact htransfer
  · rw [ht] at htransfer
    obtain ⟨-, hdraw⟩ := draw_of_inFrame htransfer (n + transfer)
    dsimp only
    rcases hd : draw ready (n + transfer) with ⟨fault | _, drawn⟩
    · rw [hd] at hdraw
      exact hdraw
    · rw [hd] at hdraw
      have hnmi := beam_deliverNmi cpu drawn
      dsimp only
      rcases hn : deliverNmi cpu drawn with ⟨fault | owed, cpu', b'⟩
      · rw [hn] at hnmi
        show b'.ppu.beam.InFrame
        rw [hnmi]
        exact hdraw
      · rw [hn] at hnmi
        show b'.ppu.beam.InFrame
        rw [hnmi]
        exact hdraw

variable {c : Console}

theorem InFrame.step (h : c.InFrame) : c.step.console.InFrame := by
  have hrun := inFrame_of_clockwork h (Cpu.step.run_clockwork c.cpu c.board)
  obtain ⟨cpu, board, owed⟩ := c
  unfold Console.step
  dsimp only
  rcases ho : Cpu.step.run cpu board with ⟨fault | _ | cycles, cpu', board', accesses⟩
  · rw [ho] at hrun
    exact hrun
  · rw [ho] at hrun
    exact hrun
  · rw [ho] at hrun
    exact inFrame_settle cpu' hrun _

theorem inFrame_reset (c : Console) (pc : Option Word) : (c.reset pc).console.InFrame := by
  obtain ⟨cpu, ⟨ram, ppu, io, saveRam, cartridge⟩, owed⟩ := c
  have hstart : ppu.reset.beam.InFrame := by
    show Beam.InFrame {}
    decide
  have hrun := inFrame_of_clockwork hstart
    ((Cpu.reset pc).run_clockwork cpu (⟨ram, ppu.reset, io, saveRam, cartridge⟩ : Board))
  rw [reset]
  rcases ho : (Cpu.reset pc).run cpu (⟨ram, ppu.reset, io, saveRam, cartridge⟩ : Board) with
    ⟨fault | _, cpu', board', accesses⟩
  · rw [ho] at hrun
    exact hrun
  · rw [ho] at hrun
    exact hrun

theorem InFrame.insert (h : c.InFrame) (image : Array Byte) (pc : Option Word) :
    (c.insert image pc).console.InFrame := by
  have hboard := inFrame_of_clockwork h (c.board.clockwork_insert image)
  rw [Console.insert]
  rcases hi : c.board.insert image with ⟨fault | _, board⟩
  · rw [hi] at hboard
    exact hboard
  · exact inFrame_reset _ pc

theorem InFrame.steps (h : c.InFrame) (n : Nat) : (c.steps n).InFrame := by
  induction n generalizing c with
  | zero => exact h
  | succ n ih => exact ih h.step

theorem InFrame.act (h : c.InFrame) (act : Act) : (act.console c).InFrame := by
  cases act with
  | call made =>
      cases made with
      | insert image pc => exact h.insert image pc
      | reset pc => exact c.inFrame_reset pc
      | step => exact h.step
      | run hooks limit fuel s =>
          show (run hooks limit fuel c s).2.1.InFrame
          rw [run_console]
          exact h.steps _
      | read a => exact inFrame_of_clockwork h (c.board.clockwork_readAt a)
      | write a d => exact inFrame_of_clockwork h (c.board.clockwork_writeAt a d)
  | picture use => exact Ppu.inFrame_after h use
  | order given => exact inFrame_of_clockwork h (given.program.run_clockwork c.cpu c.board)
  | snapshot => exact h

/-- The console after some uses. -/
def acts (c : Console) (acts : List Act) : Console := acts.foldl (fun c act => act.console c) c

/-- **Whatever is done, the beam stays in the frame.** -/
theorem inFrame_acts (h : c.InFrame) (acts : List Act) : (c.acts acts).InFrame := by
  induction acts generalizing c with
  | nil => exact h
  | cons act acts ih => exact ih (h.act act)

end Console

end Famicom
