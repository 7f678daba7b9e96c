import Famicom.Proofs.FullMemory

/-! # From the opcode to the instruction

A step fetches the opcode, and what it does from then on (`Cpu.dispatch`) is decided by the opcode.
The two parts of a step are taken apart here once, on any bus and on a full memory. -/

namespace Famicom

/-- What holds of all instructions of the matrix holds of one that an opcode has led to. -/
theorem Instruction.of_decode {P : Instruction → Prop} [DecidablePred P]
    (hall : ∀ opcode : Byte, (decode opcode).all fun i => P i) {opcode : Byte} {i : Instruction}
    (h : decode opcode = some i) : P i := by
  have hi := hall opcode
  rw [h, Option.all_some, decide_eq_true_eq] at hi
  exact hi

namespace Cpu

open Program

/-- What a step that began in the given state goes on with after the opcode. -/
def dispatch (start : Cpu) (opcode : Byte) : Program (Option Nat) :=
  if opcode = 0 ∧ start.breakHalts then pure none
  else
    match Instruction.decode opcode with
    | none => fail (.unknownOpcode opcode start.pc)
    | some i => some <$> execute i

section
variable {start : Cpu} {opcode : Byte}

theorem dispatch_of_halt (h : opcode = 0 ∧ start.breakHalts) :
    dispatch start opcode = pure none := by
  rw [dispatch, if_pos h]

theorem decode_zero : Instruction.decode 0 = some ⟨.brk, .implied, true⟩ := by decide

theorem dispatch_of_unknown (h : Instruction.decode opcode = none) :
    dispatch start opcode = fail (.unknownOpcode opcode start.pc) := by
  rw [dispatch, h, if_neg]
  rintro ⟨rfl, -⟩
  rw [decode_zero] at h
  cases h

theorem dispatch_of_known {i : Instruction} (h : Instruction.decode opcode = some i)
    (hgo : ¬ (opcode = 0 ∧ start.breakHalts)) :
    dispatch start opcode = some <$> execute i := by
  rw [dispatch, h, if_neg hgo]

end

section
variable {β : Type} [Bus β] {cpu : Cpu} {bus : β}

theorem step_run_of_fault {fault : Fault} (h : Bus.readFault? bus cpu.pc = some fault) :
    step.run cpu bus = ⟨.error fault, cpu, bus, []⟩ := by
  show Activity.run (.fetch cpu _) bus = _
  rw [Activity.run, h]

theorem step_run_of_fetched (h : Bus.readFault? bus cpu.pc = none) :
    step.run cpu bus =
      ((dispatch cpu (Bus.read bus cpu.pc).1).run { cpu with pc := cpu.pc + 1 }
        (Bus.read bus cpu.pc).2).after (.fetch cpu.pc (Bus.read bus cpu.pc).1) := by
  show Activity.run (.fetch cpu _) bus = _
  rw [Activity.run, h]
  rfl

/-- A step on a full memory. -/
theorem step_run_full (cpu : Cpu) (m : FullMemory) :
    step.run cpu m =
      ((dispatch cpu (m.busRead cpu.pc)).run { cpu with pc := cpu.pc + 1 } m).after
        (.fetch cpu.pc (m.busRead cpu.pc)) :=
  step_run_of_fetched (Memory.busFault?_full cpu.pc)

theorem step_run_known {m : FullMemory} {i : Instruction}
    (hd : Instruction.decode (m.busRead cpu.pc) = some i)
    (hgo : ¬ (m.busRead cpu.pc = 0 ∧ cpu.breakHalts)) :
    step.run cpu m =
      ((some <$> execute i).run { cpu with pc := cpu.pc + 1 } m).after
        (.fetch cpu.pc (m.busRead cpu.pc)) := by
  rw [step_run_full, dispatch_of_known hd hgo]

end

end Cpu

end Famicom
