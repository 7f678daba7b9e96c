import Famicom.Proofs.Cpu.RegisterUse
import Famicom.Proofs.Cpu.Stack

/-! # Refused instructions

On a strict board an instruction may be cut short at any of its accesses.  What it has done until
then stays done, but a write is never among it: after its first write an activity of the processor
asks for cells only (`Activity.WritesLast`), and these the board never refuses.  So a board that has
refused something has only been read (`Cpu.preserved_of_step_error`).

An interrupt asks for three cells of the stack and its vector, and is never refused
(`Cpu.nmi_asks`, `Cpu.nmi_done`). -/

namespace Famicom

open Program
open Activity (Stop)

/-- What is asked for is granted on every board. -/
def Activity.Stop.Granted (s : Stop) : Prop := s.IsRefusal ∧ s.AsksCell

/-- What an interrupt asks for: cells of the stack to write, and its vector to read. -/
def Activity.Stop.OfInterrupt (sp : Byte) : Activity.Stop → Prop
  | failed _ => False
  | unread a => a = Cpu.nmiVector ∨ a = Cpu.nmiVector + 1
  | unwritten a => a ∈ stackCells sp 3

namespace Activity

variable {α γ : Type}

/-- The activity only reads. -/
def ReadsOnly : Activity α → Prop
  | done _ _ | fail _ _ => True
  | fetch _ next => ∀ b, (next b).ReadsOnly
  | read _ _ next => ∀ b, (next b).ReadsOnly
  | write _ _ _ _ => False

/-- After its first write the activity asks for nothing that could be refused. -/
def WritesLast : Activity α → Prop
  | done _ _ | fail _ _ => True
  | fetch _ next => ∀ b, (next b).WritesLast
  | read _ _ next => ∀ b, (next b).WritesLast
  | write _ _ _ next => (next ()).Holds (fun _ s => s.Granted) fun _ _ => True

theorem WritesLast.of_holds {t : Activity α} (h : t.Holds (fun _ s => s.Granted) fun _ _ => True) :
    t.WritesLast := by
  induction t with
  | done c a => trivial
  | fail c fault => trivial
  | fetch c next ih =>
      intro b
      exact ih b (h.2 b)
  | read c a next ih =>
      intro b
      exact ih b (h.2 b)
  | write c a d next ih => exact h.2

/-- Reading may come before everything else. -/
theorem ReadsOnly.bind {t : Activity γ} (ht : t.ReadsOnly) {f : Cpu → γ → Activity α}
    (hf : ∀ c a, (f c a).WritesLast) : (t.bind f).WritesLast := by
  induction t with
  | done c a => exact hf c a
  | fail c fault => trivial
  | fetch c next ih =>
      intro b
      exact ih b (ht b)
  | read c a next ih =>
      intro b
      exact ih b (ht b)
  | write c a d next ih => exact ht.elim

/-- What is granted may come after everything else. -/
theorem WritesLast.bind {t : Activity γ} (ht : t.WritesLast) {f : Cpu → γ → Activity α}
    (hf : ∀ c a, (f c a).Holds (fun _ s => s.Granted) fun _ _ => True) :
    (t.bind f).WritesLast := by
  induction t with
  | done c a => exact WritesLast.of_holds (hf c a)
  | fail c fault => trivial
  | fetch c next ih =>
      intro b
      exact ih b (ht b)
  | read c a next ih =>
      intro b
      exact ih b (ht b)
  | write c a d next ih =>
      show ((next ()).bind f).Holds _ _
      rw [holds_bind]
      exact Holds.mono ht (fun _ _ h => h) fun c a _ => hf c a

/-! ### On the board -/

theorem Stop.not_explains_of_granted {s : Stop} (hs : s.Granted) (b : Board) (fault : Fault) :
    ¬ s.Explains b fault := by
  intro h
  obtain ⟨hrefusal, hcell⟩ := hs
  cases s with
  | failed f => exact hrefusal
  | unread a => cases (b.readFault?_of_isCell hcell).symm.trans h
  | unwritten a => cases (b.writeFault?_of_isCell hcell).symm.trans h

/-- What asks for cells only is never cut short on a board. -/
theorem Holds.done_on_board {t : Activity α} (h : t.Holds (fun _ s => s.Granted) fun _ _ => True)
    (b : Board) : ∃ a, (t.run b).result = .ok a := by
  cases hr : (t.run b).result with
  | ok a => exact ⟨a, rfl⟩
  | error fault =>
      obtain ⟨s, hs, hexplains⟩ := h.of_error hr
      exact absurd hexplains (Stop.not_explains_of_granted hs _ _)

/-- A board that has refused something has only been read: what reading preserves is preserved. -/
theorem WritesLast.preserves_of_error {I : Board → Prop}
    (hread : ∀ b a, I b → I (Bus.read b a).2) {t : Activity α} (ht : t.WritesLast) {b : Board}
    (hb : I b) {fault : Fault} (h : (t.run b).result = .error fault) : I (t.run b).bus := by
  induction t generalizing b with
  | done c a => exact hb
  | fail c f => exact hb
  | fetch c next ih =>
      unfold run at h ⊢
      split
      · exact hb
      · rename_i hf
        rw [hf] at h
        exact ih _ (ht _) (hread _ _ hb) h
  | read c a next ih =>
      unfold run at h ⊢
      split
      · exact hb
      · rename_i hf
        rw [hf] at h
        exact ih _ (ht _) (hread _ _ hb) h
  | write c a d next ih =>
      unfold run at h ⊢
      split
      · exact hb
      · rename_i hf
        rw [hf] at h
        -- the write has been granted, and nothing after it can fail
        obtain ⟨u, hu⟩ := Holds.done_on_board ht (Bus.write b a d)
        cases hu.symm.trans h

end Activity

open Activity (ReadsOnly WritesLast)

/-! ### Instructions -/

theorem Mode.operand_readsOnly (m : Mode) (cpu : Cpu) : (m.operand cpu).ReadsOnly := by
  cases m with
  | accumulator | implied => trivial
  | immediate | relative | zeroPage | zeroPageX | zeroPageY => exact fun _ => trivial
  | absolute | absoluteX | absoluteY => exact fun _ _ => trivial
  | indirect => exact fun _ _ _ _ => trivial
  | indirectX | indirectY => exact fun _ _ _ => trivial

namespace Operation

theorem perform_writesLast (op : Operation) (o : Operand) (cpu : Cpu) :
    (op.perform o cpu).WritesLast := by
  have hstack : ∀ sp, Stop.Granted (.unwritten (.stackCell sp)) :=
    fun sp => ⟨trivial, Board.isCell_stackCell sp⟩
  cases op with
  | load effect =>
      cases o with
      | cell e crossed => exact fun _ => trivial
      | none | accumulator | value b => trivial
  | store value =>
      cases o with
      | cell e crossed => trivial
      | none | accumulator | value b => trivial
  | alter change effect =>
      cases o with
      | cell e crossed => exact fun _ => trivial
      | none | accumulator | value b => trivial
  | skip | internal effect | jump => trivial
  | branch taken =>
      have hload : (o.load cpu).ReadsOnly := by
        cases o with
        | cell e crossed => exact fun _ => trivial
        | none | accumulator | value b => trivial
      refine hload.bind fun c distance => WritesLast.of_holds ?_
      rw [holds_bind, holds_get]
      split
      · trivial
      · trivial
  | push value => trivial
  | pull effect => exact fun _ => trivial
  | call => exact ⟨hstack _, trivial⟩
  | returnFromCall => exact fun _ _ => trivial
  | returnFromInterrupt => exact fun _ _ _ => trivial
  | softwareInterrupt =>
      have hvector : Stop.Granted (.unread Cpu.irqVector) := ⟨trivial, trivial⟩
      have hvector' : Stop.Granted (.unread (Cpu.irqVector + 1)) := ⟨trivial, trivial⟩
      exact ⟨hstack _, hstack _, hvector, fun _ => ⟨hvector', fun _ => trivial⟩⟩

end Operation

namespace Cpu

theorem step_writesLast (cpu : Cpu) : (step cpu).WritesLast := by
  intro opcode
  show (dispatch cpu opcode { cpu with pc := cpu.pc + 1 }).WritesLast
  by_cases hhalt : opcode = 0 ∧ cpu.breakHalts
  · rw [dispatch_of_halt hhalt]
    trivial
  cases hd : Instruction.decode opcode with
  | none =>
      rw [dispatch_of_unknown hd]
      trivial
  | some i =>
      rw [dispatch_of_known hd hhalt]
      refine WritesLast.bind ?_ fun _ _ => trivial
      refine (i.mode.operand_readsOnly _).bind fun c o => ?_
      exact (i.mnemonic.operation.perform_writesLast o c).bind fun _ _ => trivial

/-- **A refused instruction has written nothing.**  What reading the board preserves is preserved by
a step that fails. -/
theorem preserved_of_step_error {I : Board → Prop} (hread : ∀ b a, I b → I (Bus.read b a).2)
    {cpu : Cpu} {b : Board} (hb : I b) {fault : Fault}
    (h : (step.run cpu b).result = .error fault) : I (step.run cpu b).bus :=
  (step_writesLast cpu).preserves_of_error hread hb h

/-- What the interrupt asks for, whatever it is answered. -/
theorem nmi_asks (cpu : Cpu) :
    (nmi cpu).Holds (fun _ s => s.OfInterrupt cpu.sp) fun _ _ => True := by
  have hcell : ∀ k < 3, Stop.OfInterrupt cpu.sp (.unwritten (.cellBelow cpu.sp k)) :=
    fun k hk => mem_stackCells.mpr ⟨k, hk, rfl⟩
  have hfirst := hcell 0 (by decide)
  have hsecond := hcell 1 (by decide)
  have hthird := hcell 2 (by decide)
  rw [Word.cellBelow_zero] at hfirst
  rw [Word.cellBelow_succ, Word.cellBelow_zero] at hsecond
  rw [Word.cellBelow_succ, Word.cellBelow_succ, Word.cellBelow_zero] at hthird
  exact ⟨hfirst, hsecond, hthird, Or.inl rfl, fun _ => ⟨Or.inr rfl, fun _ => trivial⟩⟩

theorem granted_of_interrupt {sp : Byte} {s : Stop} (h : s.OfInterrupt sp) : s.Granted := by
  cases s with
  | failed fault => exact h.elim
  | unread a => rcases h with rfl | rfl <;> exact ⟨trivial, trivial⟩
  | unwritten a =>
      obtain ⟨k, -, rfl⟩ := mem_stackCells.mp h
      exact ⟨trivial, Board.isCell_stackCell _⟩

/-- An interrupt is never refused on a board. -/
theorem nmi_done (cpu : Cpu) (b : Board) : ∃ n, (nmi.run cpu b).result = .ok n :=
  ((nmi_asks cpu).mono (fun _ _ h => granted_of_interrupt h) fun _ _ h => h).done_on_board b

end Cpu

end Famicom
