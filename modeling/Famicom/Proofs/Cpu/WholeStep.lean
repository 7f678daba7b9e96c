import Famicom.Proofs.Cpu.Cost
import Famicom.Proofs.Cpu.RegisterUse
import Famicom.Proofs.Cpu.Stack

/-! # Whole instructions on a full memory

A full memory refuses nothing, so an instruction that is known and does not halt is completed, and
its end can be told from its beginning: the operand is the one that registers and memory lead to at
the start (`Mode.operandAt`), and what the operation does to it (`Operation.performed`) is all that
happens besides the program counter and the count of cycles (`Cpu.step_performed`).  Here, other
than on the board, the indirect mode is no exception.  An interrupt is told in the same way
(`Cpu.run_interrupt`). -/

namespace Famicom

open Program
open Activity (Stop)

/-! ### Programs without faults -/

section
variable {α : Type} {cpu : Cpu} {p : Program α} {stop : Cpu → Stop → Prop} {post : Cpu → α → Prop}

theorem Activity.Stop.not_isRefusal_of_full {m : FullMemory} {fault : Fault} {s : Stop}
    (h : s.Explains m fault) : ¬ s.IsRefusal := by
  intro hs
  cases s with
  | failed f => exact hs
  | unread a => cases (Memory.busFault?_full a).symm.trans h
  | unwritten a => cases (Memory.busFault?_full a).symm.trans h

/-- What fails on a full memory has failed of itself. -/
theorem Program.failed_of_full {m : FullMemory} {fault : Fault} (hp : (p cpu).Holds stop post)
    (h : (p.run cpu m).result = .error fault) : stop (p.run cpu m).cpu (.failed fault) := by
  obtain ⟨s, hs, hexplains⟩ := of_error hp h
  cases s with
  | failed f =>
      cases hexplains
      exact hs
  | unread a => exact absurd trivial (Stop.not_isRefusal_of_full hexplains)
  | unwritten a => exact absurd trivial (Stop.not_isRefusal_of_full hexplains)

/-- A program without faults of its own is completed on a full memory. -/
theorem Program.done_of_full (hp : (p cpu).Holds (fun _ s => s.IsRefusal) post) (m : FullMemory) :
    ∃ a, (p.run cpu m).result = .ok a := by
  cases h : (p.run cpu m).result with
  | ok a => exact ⟨a, rfl⟩
  | error fault => exact (failed_of_full hp h).elim

end

/-! ### Operands -/

/-- The operand of an instruction that begins in the given state. -/
def Mode.operandAt (start : Cpu) (memory : Word → Byte) : Mode → Operand :=
  let first := memory (start.pc + 1)
  let word := Word.ofBytes (memory (start.pc + 2)) first
  fun
  | accumulator => .accumulator
  | implied => .none
  | immediate | relative => .value first
  | zeroPage => .cell (.zeroPage first) false
  | zeroPageX => .cell (.zeroPage (first + start.x)) false
  | zeroPageY => .cell (.zeroPage (first + start.y)) false
  | absolute => .cell word false
  | absoluteX => .indexed word start.x
  | absoluteY => .indexed word start.y
  | indirect => .cell (pointerAt memory word) false
  | indirectX => .cell (pointerAt memory (.zeroPage (first + start.x))) false
  | indirectY => .indexed (pointerAt memory (.zeroPage first)) start.y

theorem Mode.address?_operandAt (start : Cpu) (memory : Word → Byte) (m : Mode) :
    (m.operandAt start memory).address? = m.effectiveAddress? start memory := by
  cases m <;> rfl

theorem Operand.eq_cell_of_address? {o : Operand} {e : Word} (h : o.address? = some e) :
    ∃ crossed, o = .cell e crossed := by
  cases o with
  | cell a crossed =>
      cases h
      exact ⟨crossed, rfl⟩
  | _ => cases h

/-- Where a mode looks up an address, if it does. -/
def Mode.pointer? (start : Cpu) (memory : Word → Byte) : Mode → Option Word :=
  let first := memory (start.pc + 1)
  fun
  | indirect => some (.ofBytes (memory (start.pc + 2)) first)
  | indirectX => some (.zeroPage (first + start.x))
  | indirectY => some (.zeroPage first)
  | _ => none

/-- The accesses by which instruction bytes are fetched. -/
def fetches (memory : Word → Byte) (pc : Word) : Nat → List Access
  | 0 => []
  | n + 1 => .fetch pc (memory pc) :: fetches memory (pc + 1) n

/-- The accesses by which an address is looked up. -/
def pointerReads (memory : Word → Byte) (a : Word) : List Access :=
  [.read a (memory a), .read a.nextInPage (memory a.nextInPage)]

/-- The accesses by which the operand of an instruction that begins in the given state is found. -/
def Mode.operandAccesses (start : Cpu) (memory : Word → Byte) (m : Mode) : List Access :=
  fetches memory (start.pc + 1) (m.instructionSize - 1) ++
    (m.pointer? start memory).elim [] (pointerReads memory)

namespace Operand

/-- The byte that an operand stands for, given the accumulator and the memory. -/
def byte (a : Byte) (memory : Word → Byte) : Operand → Byte
  | none => 0
  | accumulator => a
  | value b => b
  | cell address _ => memory address

/-- The accesses of a load. -/
def reads (memory : Word → Byte) : Operand → List Access
  | cell address _ => [.read address (memory address)]
  | _ => []

/-- The accesses of a store. -/
def writes (b : Byte) : Operand → List Access
  | cell address _ => [.write address b]
  | _ => []

/-- The processor after a store. -/
def storedCpu (b : Byte) (c : Cpu) : Operand → Cpu
  | accumulator => { c with a := b }
  | _ => c

/-- The memory after a store. -/
def storedMemory (b : Byte) (m : FullMemory) : Operand → FullMemory
  | cell address _ => m.busWrite address b
  | _ => m

end Operand

section
variable (cpu : Cpu) (m : FullMemory)

theorem Program.run_fetchWord_of_full :
    fetchWord.run cpu m =
      ⟨.ok (.ofBytes (m.busRead (cpu.pc + 1)) (m.busRead cpu.pc)),
        { cpu with pc := cpu.pc + 1 + 1 }, m,
        [.fetch cpu.pc (m.busRead cpu.pc), .fetch (cpu.pc + 1) (m.busRead (cpu.pc + 1))]⟩ := by
  simp only [fetchWord, run_bind, run_fetch, Outcome.andThen, run_pure]
  rfl

theorem Program.run_readPointer_of_full (a : Word) :
    (readPointer a).run cpu m = ⟨.ok (pointerAt m.busRead a), cpu, m,
      [.read a (m.busRead a), .read a.nextInPage (m.busRead a.nextInPage)]⟩ := by
  simp only [readPointer, run_bind, run_read, Outcome.andThen, run_pure]
  rfl

theorem Operand.run_load_of_full (o : Operand) :
    o.load.run cpu m = ⟨.ok (o.byte cpu.a m.busRead), cpu, m, o.reads m.busRead⟩ := by
  cases o with
  | none | accumulator | value b => rfl
  | cell a crossed => exact run_read cpu m a

theorem Operand.run_store_of_full (o : Operand) (b : Byte) :
    (o.store b).run cpu m = ⟨.ok (), o.storedCpu b cpu, o.storedMemory b m, o.writes b⟩ := by
  cases o with
  | none | accumulator | value b => rfl
  | cell a crossed => exact run_write cpu m a b

/-- Where the operand is found, once the opcode has been fetched. -/
theorem Mode.run_operand_of_full (mode : Mode) :
    mode.operand.run { cpu with pc := cpu.pc + 1 } m =
      ⟨.ok (mode.operandAt cpu m.busRead),
        { cpu with pc := cpu.pc + BitVec.ofNat 16 mode.instructionSize }, m,
        mode.operandAccesses cpu m.busRead⟩ := by
  have hpc₂ : cpu.pc + 1 + 1 = cpu.pc + 2 := BitVec.add_assoc _ 1 1
  have hpc₂' : cpu.pc + 1#16 + 1#16 = cpu.pc + 2#16 := hpc₂
  have hpc₃ : cpu.pc + 2 + 1 = cpu.pc + 3 := BitVec.add_assoc _ 2 1
  cases mode with
  | accumulator | implied => rfl
  | immediate | relative | zeroPage | zeroPageX | zeroPageY =>
      simp only [operand, run_bind, run_fetch, Outcome.andThen, run_get, run_pure, hpc₂]
      rfl
  | absolute | absoluteX | absoluteY =>
      simp only [operand, run_bind, run_fetchWord_of_full, Outcome.andThen, run_get, run_pure,
        hpc₂, hpc₃]
      simp [operandAccesses, instructionSize, fetches, pointer?, operandAt, hpc₂']
  | indirect =>
      simp only [operand, run_bind, run_fetchWord_of_full, run_readPointer_of_full,
        Outcome.andThen, run_pure, hpc₂, hpc₃]
      simp [operandAccesses, instructionSize, fetches, pointer?, operandAt, pointerReads, hpc₂']
  | indirectX | indirectY =>
      simp only [operand, run_bind, run_fetch, run_readPointer_of_full, Outcome.andThen, run_get,
        run_pure, hpc₂]
      rfl

end

/-! ### Operations -/

/-- What becomes of an operation: processor and memory, the cycles added by a branch, and the
accesses. -/
structure Performed where
  cpu : Cpu
  memory : FullMemory
  added : Nat := 0
  accesses : List Access := []

namespace Operation

/-- What becomes of an operation that is carried out on its operand. -/
def performed (o : Operand) (c : Cpu) (m : FullMemory) : Operation → Performed
  | load effect =>
    { cpu := effect (o.byte c.a m.busRead) c
      memory := m
      accesses := o.reads m.busRead }
  | store value =>
    { cpu := o.storedCpu (value c) c
      memory := o.storedMemory (value c) m
      accesses := o.writes (value c) }
  | alter change effect =>
    let (b, flags) := change (o.byte c.a m.busRead) c.flags
    { cpu := effect b (o.storedCpu b { c with flags })
      memory := o.storedMemory b m
      accesses := o.reads m.busRead ++ o.writes b }
  | skip => { cpu := c, memory := m }
  | internal effect => { cpu := effect c, memory := m }
  | branch taken =>
    let target := branchTarget c.pc (o.byte c.a m.busRead)
    { cpu := if taken c.flags then { c with pc := target } else c
      memory := m
      added := if taken c.flags then branchCycles c.pc target else 0
      accesses := o.reads m.busRead }
  | push value =>
    { cpu := { c with sp := c.sp - 1 }
      memory := m.pushed c.sp [value c]
      accesses := stackWrites c.sp [value c] }
  | pull effect =>
    { cpu := effect (m.busRead (.stackCell (c.sp + 1))) { c with sp := c.sp + 1 }
      memory := m
      accesses := stackReads m.busRead c.sp 1 }
  | jump => { cpu := { c with pc := o.address }, memory := m }
  | call =>
    { cpu := { c with sp := c.sp - 2, pc := o.address }
      memory := m.pushed c.sp [(c.pc - 1).high, (c.pc - 1).low]
      accesses := stackWrites c.sp [(c.pc - 1).high, (c.pc - 1).low] }
  | returnFromCall =>
    let back := Word.ofBytes (m.busRead (.stackCell (c.sp + 2))) (m.busRead (.stackCell (c.sp + 1)))
    { cpu := { c with sp := c.sp + 2, pc := back + 1 }
      memory := m
      accesses := stackReads m.busRead c.sp 2 }
  | returnFromInterrupt =>
    { cpu :=
        { c with
          sp := c.sp + 3
          pc := .ofBytes (m.busRead (.stackCell (c.sp + 3))) (m.busRead (.stackCell (c.sp + 2)))
          flags := .pulled (m.busRead (.stackCell (c.sp + 1))) }
      memory := m
      accesses := stackReads m.busRead c.sp 3 }
  | softwareInterrupt =>
    let back := c.pc + 1
    let status := c.flags.pushedBySoftware
    let memory := m.interrupted c.sp back status
    { cpu :=
        { c with
          sp := c.sp - 3
          pc := wordAt memory.busRead Cpu.irqVector
          flags := { c.flags with interruptDisable := true } }
      memory
      accesses := stackWrites c.sp [back.high, back.low, status] ++
        [.read Cpu.irqVector (memory.busRead Cpu.irqVector),
          .read (Cpu.irqVector + 1) (memory.busRead (Cpu.irqVector + 1))] }

/-- An operation on a full memory is carried out. -/
theorem run_perform_of_full (op : Operation) (o : Operand) (c : Cpu) (m : FullMemory) :
    (op.perform o).run c m =
      let p := op.performed o c m
      ⟨.ok p.added, p.cpu, p.memory, p.accesses⟩ := by
  cases op with
  | load effect =>
      simp [perform, performed, Operand.run_load_of_full, Outcome.andThen, Except.map]
  | store value =>
      simp [perform, performed, Operand.run_store_of_full, Outcome.andThen, Except.map]
  | alter change effect =>
      simp [perform, performed, Operand.run_load_of_full, Operand.run_store_of_full,
        Outcome.andThen, Except.map]
  | skip | internal effect | jump => rfl
  | branch taken =>
      simp only [perform, performed, run_bind, Operand.run_load_of_full, Outcome.andThen, run_get]
      by_cases h : taken c.flags = true
      · simp [h, jumpTo, Except.map]
      · simp [h]
  | push value => simp [perform, performed, Memory.pushed, stackWrites, Outcome.andThen, Except.map]
  | pull effect => simp [perform, performed, stackReads, Outcome.andThen, Except.map]
  | call => simp [perform, performed, run_pushWord, jumpTo, Outcome.andThen, Except.map]
  | returnFromCall => simp [perform, performed, run_pullWord, jumpTo, Outcome.andThen, Except.map]
  | returnFromInterrupt =>
      have h2 : c.sp + 1#8 + 1#8 = c.sp + 2#8 := by bv_omega
      have h12 : c.sp + 1#8 + 2#8 = c.sp + 3#8 := by bv_omega
      simp [perform, performed, run_pullWord, jumpTo, stackReads, Outcome.andThen, Except.map,
        h2, h12]
  | softwareInterrupt => simp [perform, performed, run_enterHandler, Outcome.andThen, Except.map]

end Operation

/-! ### Instructions -/

namespace Cpu

/-- The processor behind an instruction of the given mode. -/
def past (cpu : Cpu) (mode : Mode) : Cpu :=
  { cpu with pc := cpu.pc + BitVec.ofNat 16 mode.instructionSize }

section
variable {cpu : Cpu} {m : FullMemory} {i : Instruction}

theorem not_halt_of_decode (hd : Instruction.decode (m.busRead cpu.pc) = some i)
    (hi : i.mnemonic ≠ .brk) : ¬ (m.busRead cpu.pc = 0 ∧ cpu.breakHalts) := by
  rintro ⟨h0, -⟩
  rw [h0, decode_zero] at hd
  cases hd
  exact hi rfl

/-- **What an instruction does on a full memory.** -/
theorem step_performed (hd : Instruction.decode (m.busRead cpu.pc) = some i)
    (hgo : ¬ (m.busRead cpu.pc = 0 ∧ cpu.breakHalts)) :
    let o := i.mode.operandAt cpu m.busRead
    let p := i.mnemonic.operation.performed o (cpu.past i.mode) m
    let n := cyclesOf i o p.added
    step.run cpu m = ⟨.ok (some n), p.cpu.later n, p.memory,
      .fetch cpu.pc (m.busRead cpu.pc) :: (i.mode.operandAccesses cpu m.busRead ++ p.accesses)⟩ := by
  intro o p n
  have hperform : (i.mnemonic.operation.perform o).run (cpu.past i.mode) m =
      ⟨.ok p.added, p.cpu, p.memory, p.accesses⟩ :=
    i.mnemonic.operation.run_perform_of_full o (cpu.past i.mode) m
  have hexecute : (execute i).run { cpu with pc := cpu.pc + 1 } m =
      ⟨.ok n, p.cpu.later n, p.memory, i.mode.operandAccesses cpu m.busRead ++ p.accesses⟩ := by
    rw [execute, run_bind, i.mode.run_operand_of_full cpu m]
    simp only [Outcome.andThen, run_bind]
    rw [show { cpu with pc := _ } = cpu.past i.mode from rfl, hperform]
    simp [spend, later, mapCycles, n, o]
  rw [step_run_known hd hgo, run_map, hexecute]
  rfl

theorem step_full (hd : Instruction.decode (m.busRead cpu.pc) = some i)
    (hgo : ¬ (m.busRead cpu.pc = 0 ∧ cpu.breakHalts)) :
    let p := (i.mnemonic.operation.perform (i.mode.operandAt cpu m.busRead)).run (cpu.past i.mode) m
    ∃ n, (step.run cpu m).result = .ok (some n) ∧
      (step.run cpu m).cpu = p.cpu.later n ∧ (step.run cpu m).bus = p.bus := by
  rw [step_performed hd hgo, Operation.run_perform_of_full]
  exact ⟨_, rfl, rfl, rfl⟩

/-- A load on a full memory. -/
theorem step_load {effect : Byte → Cpu → Cpu}
    (hd : Instruction.decode (m.busRead cpu.pc) = some i)
    (hi : i.mnemonic.operation = .load effect) :
    ∃ n, (step.run cpu m).result = .ok (some n) ∧ (step.run cpu m).bus = m ∧
      (step.run cpu m).cpu =
        (effect ((i.mode.operandAt cpu m.busRead).byte cpu.a m.busRead) (cpu.past i.mode)).later n := by
  have hbrk : i.mnemonic ≠ .brk := by
    intro h
    rw [h] at hi
    cases hi
  rw [step_performed hd (not_halt_of_decode hd hbrk), hi]
  exact ⟨_, rfl, rfl, rfl⟩

/-- A step that is completed has found an instruction. -/
theorem exists_instruction_of_completed {n : Nat} (h : (step.run cpu m).result = .ok (some n)) :
    ∃ i, Instruction.decode (m.busRead cpu.pc) = some i ∧
      ¬ (m.busRead cpu.pc = 0 ∧ cpu.breakHalts) := by
  rw [step_run_full] at h
  by_cases hgo : m.busRead cpu.pc = 0 ∧ cpu.breakHalts
  · rw [dispatch_of_halt hgo] at h
    cases h
  cases hd : Instruction.decode (m.busRead cpu.pc) with
  | none =>
      rw [dispatch_of_unknown hd] at h
      cases h
  | some i => exact ⟨i, rfl, hgo⟩

end

/-! ### Interrupts -/

/-- **What an interrupt does on a full memory.** -/
theorem run_interrupt (vector : Word) (cpu : Cpu) (m : FullMemory) :
    (interrupt vector).run cpu m =
      let m' := m.interrupted cpu.sp cpu.pc cpu.flags.pushedByInterrupt
      ⟨.ok interruptCycles,
        { cpu with
          sp := cpu.sp - 3
          pc := wordAt m'.busRead vector
          flags := { cpu.flags with interruptDisable := true }
          cycles := cpu.cycles + interruptCycles },
        m',
        stackWrites cpu.sp [cpu.pc.high, cpu.pc.low, cpu.flags.pushedByInterrupt] ++
          [.read vector (m'.busRead vector), .read (vector + 1) (m'.busRead (vector + 1))]⟩ := by
  simp [interrupt, run_enterHandler, spend, Outcome.andThen, Except.map]

theorem run_irq (cpu : Cpu) (m : FullMemory) : irq.run cpu m =
    if cpu.flags.interruptDisable then ⟨.ok 0, cpu, m, []⟩
    else (interrupt irqVector).run cpu m := by
  by_cases h : cpu.flags.interruptDisable <;> simp [irq, h, Outcome.andThen]

end Cpu

end Famicom
