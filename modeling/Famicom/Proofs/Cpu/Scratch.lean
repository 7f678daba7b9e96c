import Famicom.Cpu.Step

/-! # What is left over from an instruction

While it carries an instruction out the processor keeps some things at hand: which instruction it
is, the operand that was found, the cycles counted so far, and whether the index led into another
page.  They are never cleared, so they are still there when the next instruction begins, after an
interrupt, after a failure and after a reset.

`Cpu.step` has no such memory: what it needs it hands on.  Here the step is written with it
(`Cpu.stepWith`), and that comes to the same whatever has been left over (`Cpu.fst_stepWith`). -/

namespace Famicom

open Program

namespace Cpu

/-- What the processor keeps of an instruction. -/
structure Scratch where
  instruction : Option Instruction := none
  operand : Operand := .none
  cycles : Nat := 0
  crossed : Bool := false

namespace Scratch

/-- Begins an instruction. -/
def begin (s : Scratch) (i : Instruction) : Scratch :=
  { s with instruction := some i, cycles := i.baseCycles, crossed := false }

/-- Keeps an operand.  Only modes with an index note that it led into another page. -/
def keep (s : Scratch) (o : Operand) : Scratch :=
  { s with operand := o, crossed := s.crossed || o.crossed }

/-- Finds the operand of the instruction. -/
def findOperand (s : Scratch) : Program Scratch :=
  match s.instruction with
  | none => pure s
  | some i => return s.keep (← i.mode.operand)

/-- Carries the operation of the instruction out; a branch counts its cycles. -/
def perform (s : Scratch) : Program Scratch :=
  match s.instruction with
  | none => pure s
  | some i => return { s with cycles := s.cycles + (← i.mnemonic.operation.perform s.operand) }

/-- Counts the cycle for another page, where the instruction pays for it. -/
def payForPage (s : Scratch) : Scratch :=
  { s with cycles := s.cycles + (s.instruction.any Instruction.paysForPage && s.crossed).toNat }

end Scratch

/-- Runs one instruction, with what has been left over from earlier ones. -/
def stepWith (s : Scratch) : Program (Option Nat × Scratch) := do
  let start ← get
  let opcode ← fetch
  if opcode = 0 ∧ start.breakHalts then
    return (none, s)
  else
    match Instruction.decode opcode with
    | none => fail (.unknownOpcode opcode start.pc)
    | some i =>
      let s ← (s.begin i).findOperand
      let s ← s.perform
      let s := s.payForPage
      spend s.cycles
      return (some s.cycles, s)

/-- **Nothing is left over.**  A step does the same whatever has been left over from earlier ones. -/
theorem fst_stepWith (s : Scratch) : Prod.fst <$> stepWith s = step := by
  rw [stepWith, step, map_bind]
  refine bind_congr fun start => ?_
  rw [map_bind]
  refine bind_congr fun opcode => ?_
  split
  · rfl
  · cases Instruction.decode opcode with
    | none => rfl
    | some i =>
        simp only [execute, Scratch.findOperand, Scratch.begin, Scratch.perform, Scratch.keep,
          map_bind, bind_assoc, pure_bind, map_pure]
        refine bind_congr fun o => ?_
        refine bind_congr fun branch => ?_
        rfl

end Cpu

end Famicom
