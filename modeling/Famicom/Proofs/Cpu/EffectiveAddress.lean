import Famicom.Cpu.Step
import Famicom.Proofs.Board.Quiet

/-! # Effective addresses

Where the operand of an instruction is, told in advance from the registers and the bytes that stand
in memory when the instruction begins (`Mode.effectiveAddress?`).  If the board shows the
instruction bytes at quiet addresses, then to find the operand is to find it there, and the board
remains as it is (`Mode.run_operand`): apart from the instruction bytes only pointers in page zero
are looked up.  The one exception is the indirect mode, whose pointer may be anywhere. -/

namespace Famicom

/-- The word at an address whose high byte is in the same page. -/
def pointerAt (memory : Word → Byte) (a : Word) : Word :=
  .ofBytes (memory a.nextInPage) (memory a)

/-- The address of the operand of an instruction that begins in the given state, if it has one. -/
def Mode.effectiveAddress? (start : Cpu) (memory : Word → Byte) : Mode → Option Word :=
  let first := memory (start.pc + 1)
  let word := Word.ofBytes (memory (start.pc + 2)) first
  fun
  | accumulator | implied | immediate | relative => none
  | zeroPage => some (.zeroPage first)
  | zeroPageX => some (.zeroPage (first + start.x))
  | zeroPageY => some (.zeroPage (first + start.y))
  | absolute => some word
  | absoluteX => some (word + start.x.setWidth 16)
  | absoluteY => some (word + start.y.setWidth 16)
  | indirect => some (pointerAt memory word)
  | indirectX => some (pointerAt memory (.zeroPage (first + start.x)))
  | indirectY => some (pointerAt memory (.zeroPage first) + start.y.setWidth 16)

/-- The address of an operand, if it has one. -/
def Operand.address? : Operand → Option Word
  | cell a _ => some a
  | none | accumulator | value _ => Option.none

/-- The access is that of an instruction byte or of a cell. -/
def Access.IsPlain : Access → Prop
  | fetch _ _ => True
  | read a _ | write a _ => (Board.decode a).IsCell

namespace Program

open Board (Quiet)

section
variable (cpu : Cpu) (b : Board)

theorem run_fetchWord_of_quiet (h : Quiet cpu.pc) (h' : Quiet (cpu.pc + 1)) :
    fetchWord.run cpu b =
      ⟨.ok (.ofBytes (b.shown (cpu.pc + 1)) (b.shown cpu.pc)), { cpu with pc := cpu.pc + 1 + 1 }, b,
        [.fetch cpu.pc (b.shown cpu.pc), .fetch (cpu.pc + 1) (b.shown (cpu.pc + 1))]⟩ := by
  rw [fetchWord, run_bind, run_fetch_of_quiet _ _ h]
  simp only [Outcome.andThen, run_bind, run_pure]
  rw [run_fetch_of_quiet _ _ h']
  rfl

/-- Pointers in page zero. -/
theorem run_readPointer_zeroPage (offset : Byte) :
    (readPointer (.zeroPage offset)).run cpu b =
      ⟨.ok (pointerAt b.shown (.zeroPage offset)), cpu, b,
        [.read (.zeroPage offset) (b.shown (.zeroPage offset)),
          .read (.zeroPage (offset + 1)) (b.shown (.zeroPage (offset + 1)))]⟩ := by
  have h := Board.quiet_zeroPage offset
  have h' := Board.quiet_zeroPage (offset + 1)
  rw [readPointer, pointerAt, Board.nextInPage_zeroPage, run_bind, run_read_of_quiet _ _ h]
  simp only [Outcome.andThen, run_bind, run_pure]
  rw [run_read_of_quiet _ _ h']
  rfl

end

end Program

open Program
open Board (Quiet)

/-- The bytes of an instruction that begins in the given state stand at quiet addresses. -/
def Mode.BytesQuiet (m : Mode) (start : Cpu) : Prop :=
  ∀ k < m.instructionSize, Quiet (start.pc + BitVec.ofNat 16 k)

/-- **Where the operand is found**, once the opcode has been fetched. -/
theorem Mode.run_operand {m : Mode} (hm : m ≠ .indirect) {start : Cpu} (hq : m.BytesQuiet start)
    (b : Board) :
    ∃ o xs, m.operand.run { start with pc := start.pc + 1 } b =
        ⟨.ok o, { start with pc := start.pc + BitVec.ofNat 16 m.instructionSize }, b, xs⟩ ∧
      o.address? = m.effectiveAddress? start b.shown ∧ ∀ x ∈ xs, x.IsPlain := by
  have hpc₂ : start.pc + 1 + 1 = start.pc + 2 := BitVec.add_assoc _ 1 1
  have hpc₃ : start.pc + 2 + 1 = start.pc + 3 := BitVec.add_assoc _ 2 1
  have hfetch : 2 ≤ m.instructionSize → fetch.run { start with pc := start.pc + 1 } b =
      ⟨.ok (b.shown (start.pc + 1)), { start with pc := start.pc + 2 }, b,
        [.fetch (start.pc + 1) (b.shown (start.pc + 1))]⟩ := by
    intro hsize
    rw [← hpc₂]
    exact run_fetch_of_quiet _ b (hq 1 hsize)
  have hword : 3 ≤ m.instructionSize → fetchWord.run { start with pc := start.pc + 1 } b =
      ⟨.ok (.ofBytes (b.shown (start.pc + 2)) (b.shown (start.pc + 1))),
        { start with pc := start.pc + 3 }, b,
        [.fetch (start.pc + 1) (b.shown (start.pc + 1)),
          .fetch (start.pc + 2) (b.shown (start.pc + 2))]⟩ := by
    intro hsize
    have h₁ : Quiet (start.pc + 1) := hq 1 (by omega)
    have h₂ : Quiet (start.pc + 1 + 1) := by
      rw [hpc₂]
      exact hq 2 (by omega)
    rw [← hpc₃, ← hpc₂]
    exact run_fetchWord_of_quiet _ b h₁ h₂
  cases m with
  | accumulator | implied => exact ⟨_, _, rfl, rfl, by simp⟩
  | immediate | relative =>
      simp only [operand, run_bind, hfetch (by decide), Outcome.andThen, run_pure]
      exact ⟨_, _, rfl, rfl, by simp [Access.IsPlain]⟩
  | zeroPage | zeroPageX | zeroPageY =>
      simp only [operand, run_bind, hfetch (by decide), Outcome.andThen, run_pure, run_get]
      exact ⟨_, _, rfl, rfl, by simp [Access.IsPlain]⟩
  | absolute | absoluteX | absoluteY =>
      simp only [operand, run_bind, hword (by decide), Outcome.andThen, run_pure, run_get]
      exact ⟨_, _, rfl, rfl, by simp [Access.IsPlain]⟩
  | indirect => exact absurd rfl hm
  | indirectX | indirectY =>
      simp only [operand, run_bind, hfetch (by decide), Outcome.andThen, run_pure, run_get,
        run_readPointer_zeroPage]
      exact ⟨_, _, rfl, rfl, by simp [Access.IsPlain, Board.isCell_zeroPage]⟩

end Famicom
