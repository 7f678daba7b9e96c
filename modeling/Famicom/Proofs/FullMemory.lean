import Famicom.Proofs.Activity
import Famicom.Cpu.Step

/-! # The processor on a full memory

A memory of 65536 cells has one for each address, so it refuses no access: an activity always goes
on with the byte that the memory holds (`Activity.run_read` and its like), and a program fails of
itself or not at all (`Program.failed_of_full`). -/

namespace Famicom

/-- A memory with a cell for each address of the processor. -/
abbrev FullMemory := Memory 0x10000

/-! ### Stack cells -/

namespace Word

theorem stackCell_injective {s t : Byte} (h : stackCell s = stackCell t) : s = t := by
  rw [← low_ofBytes 1 s, ← low_ofBytes 1 t]
  exact congrArg low h

theorem stackCell_ne {s : Byte} {a : Word} (h : a.high ≠ 1) : stackCell s ≠ a := by
  rintro rfl
  exact h (high_ofBytes 1 s)

end Word

/-! ### Single cells -/

namespace Memory

@[simp] theorem busRead_ofFn (f : Fin 0x10000 → Byte) (a : Word) :
    (ofFn f).busRead a = f a.toFin := by
  have h := a.isLt
  rw [busRead, dif_pos h, get_ofFn]
  rfl

end Memory

/-! ### Requests that are always granted -/

namespace Activity

variable {α : Type} (cpu : Cpu) (m : FullMemory) (a : Word)

theorem run_fetch (next : Byte → Activity α) :
    (fetch cpu next).run m =
      ((next (m.busRead cpu.pc)).run m).after (.fetch cpu.pc (m.busRead cpu.pc)) := by
  have h : Bus.readFault? m cpu.pc = none := Memory.busFault?_full cpu.pc
  rw [run, h]
  rfl

theorem run_read (next : Byte → Activity α) :
    (read cpu a next).run m = ((next (m.busRead a)).run m).after (.read a (m.busRead a)) := by
  have h : Bus.readFault? m a = none := Memory.busFault?_full a
  rw [run, h]
  rfl

theorem run_write (d : Byte) (next : Unit → Activity α) :
    (write cpu a d next).run m = ((next ()).run (m.busWrite a d)).after (.write a d) := by
  have h : Bus.writeFault? m a = none := Memory.busFault?_full a
  rw [run, h]
  rfl

end Activity

namespace Program

variable (cpu : Cpu) (m : FullMemory)

@[simp] theorem run_fetch :
    fetch.run cpu m = ⟨.ok (m.busRead cpu.pc), { cpu with pc := cpu.pc + 1 }, m,
      [.fetch cpu.pc (m.busRead cpu.pc)]⟩ :=
  Activity.run_fetch ..

@[simp] theorem run_read (a : Word) :
    (read a).run cpu m = ⟨.ok (m.busRead a), cpu, m, [.read a (m.busRead a)]⟩ :=
  Activity.run_read ..

@[simp] theorem run_write (a : Word) (d : Byte) :
    (write a d).run cpu m = ⟨.ok (), cpu, m.busWrite a d, [.write a d]⟩ :=
  Activity.run_write ..

@[simp] theorem run_push (d : Byte) :
    (push d).run cpu m = ⟨.ok (), { cpu with sp := cpu.sp - 1 },
      m.busWrite (.stackCell cpu.sp) d, [.write (.stackCell cpu.sp) d]⟩ := by
  simp [push, Outcome.andThen]

@[simp] theorem run_pull :
    pull.run cpu m = ⟨.ok (m.busRead (.stackCell (cpu.sp + 1))), { cpu with sp := cpu.sp + 1 }, m,
      [.read (.stackCell (cpu.sp + 1)) (m.busRead (.stackCell (cpu.sp + 1)))]⟩ := by
  simp [pull, Outcome.andThen]

end Program

end Famicom
