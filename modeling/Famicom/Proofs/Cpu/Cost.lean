import Famicom.Proofs.Cpu.Timeless

/-! # What an instruction costs

The count of cycles moves at one place only, the end of a completed instruction or interrupt, and
there it moves by just what is reported.  `Cpu.step_holds` says so of instructions, on every bus:
one that completes takes between 2 and 8 cycles and has the count grow by them; one that halts, is
unknown or is refused an access leaves the count alone.  It also says how an instruction can be cut
short: the only fault of its own is an unknown opcode.  `Cpu.interrupt_holds` is the same for
interrupts, which take 7 cycles and have no fault of their own, and `Cpu.reset_holds` is what there
is to say of a reset. -/

namespace Famicom

open Program
open Activity (Stop)

variable {cpu : Cpu}

/-! ### Faults -/

theorem Mode.operand_refusals (m : Mode) :
    (m.operand cpu).Holds (fun _ s => s.IsRefusal) fun _ _ => True := by
  cases m <;> simp [Mode.operand, fetchWord, readPointer, Stop.IsRefusal]

theorem Program.enterHandler_refusals (vector back : Word) (status : Flags → Byte) :
    (enterHandler vector back status cpu).Holds (fun _ s => s.IsRefusal) fun _ _ => True := by
  simp [enterHandler, pushWord, push, readWord, jumpTo, Stop.IsRefusal]

namespace Operation

/-- The most cycles that carrying an operation out can add. -/
def addedCycles : Operation → Nat
  | branch _ => 2
  | _ => 0

theorem branchCycles_le (pc target : Word) : branchCycles pc target ≤ 2 := by
  have := (pc.crossesPage target).toNat_le
  rw [branchCycles]
  omega

theorem perform_holds (op : Operation) (o : Operand) :
    (op.perform o cpu).Holds (fun _ s => s.IsRefusal) fun _ n => n ≤ op.addedCycles := by
  cases op with
  | load effect => cases o <;> simp [perform, Operand.load, Stop.IsRefusal]
  | store value => cases o <;> simp [perform, Operand.store, Stop.IsRefusal]
  | alter change effect =>
      cases o <;> simp [perform, Operand.load, Operand.store, Stop.IsRefusal]
  | skip | internal effect => simp [perform]
  | branch taken =>
      rw [perform, holds_bind]
      have hl : (o.load cpu).Holds (fun _ s => s.IsRefusal) fun _ _ => True := by
        cases o <;> simp [Operand.load, Stop.IsRefusal]
      refine hl.mono (fun _ _ h => h) fun c distance _ => ?_
      rw [holds_bind, holds_get]
      split
      · exact branchCycles_le _ _
      · exact Nat.zero_le _
  | push value | pull effect | jump | call | returnFromCall | returnFromInterrupt =>
      simp [perform, Program.push, Program.pull, pushWord, pullWord, jumpTo, Stop.IsRefusal]
  | softwareInterrupt =>
      simp only [perform, holds_bind, holds_get]
      exact (enterHandler_refusals _ _ _).mono (fun _ _ h => h) fun _ _ _ => Nat.le_refl 0

theorem readCycles_bounds (m : Mode) :
    2 ≤ m.readCycles ∧ m.readCycles + m.mayCrossPage.toNat ≤ 6 := by
  cases m <;> decide

/-- Eight cycles are enough for every operation in every mode, with what a branch or another page
adds. -/
theorem cycles_bounds (op : Operation) (m : Mode) :
    2 ≤ op.baseCycles m ∧
      op.baseCycles m + op.addedCycles + (op.paysForPage m).toNat ≤ 8 := by
  obtain ⟨h2, h6⟩ := readCycles_bounds m
  cases op with
  | load effect | skip => simp only [baseCycles, addedCycles, paysForPage]; omega
  | store value => simp only [baseCycles, addedCycles, paysForPage, Bool.toNat_false]; omega
  | alter change effect =>
      cases m <;> simp only [baseCycles, addedCycles, paysForPage, Bool.toNat_false] <;>
        omega
  | jump => cases m <;> simp [baseCycles, addedCycles, paysForPage]
  | internal _ | branch _ | push _ | pull _ | call | returnFromCall | returnFromInterrupt
  | softwareInterrupt => simp [baseCycles, addedCycles, paysForPage]

end Operation

/-! ### Cycles -/

namespace Cpu

theorem cyclesOf_bounds (i : Instruction) (o : Operand) {n : Nat}
    (h : n ≤ i.mnemonic.operation.addedCycles) : 2 ≤ cyclesOf i o n ∧ cyclesOf i o n ≤ 8 := by
  obtain ⟨h2, h8⟩ := i.mnemonic.operation.cycles_bounds i.mode
  have hp : (i.paysForPage && o.crossed).toNat ≤
      (i.mnemonic.operation.paysForPage i.mode).toNat := by
    unfold Instruction.paysForPage
    cases i.mnemonic.operation.paysForPage i.mode <;> cases o.crossed <;> decide
  rw [cyclesOf, Instruction.baseCycles]
  omega

theorem execute_holds (i : Instruction) :
    (execute i cpu).Holds (fun c s => c.cycles = cpu.cycles ∧ s.IsRefusal)
      fun c n => c.cycles = cpu.cycles + n ∧ 2 ≤ n ∧ n ≤ 8 := by
  rw [execute, Program.holds_bind]
  have ho := (i.mode.operand_timeless.holds_cycles cpu).and i.mode.operand_refusals
  refine ho.mono (fun _ _ h => h) fun c o hc => ?_
  rw [Program.holds_bind]
  have hp := ((i.mnemonic.perform_timeless o).holds_cycles c).and
    (i.mnemonic.operation.perform_holds o)
  refine hp.mono (fun _ _ h => ⟨h.1.trans hc.1, h.2⟩) fun c' n hn => ?_
  have hcycles : c'.cycles = cpu.cycles := hn.1.trans hc.1
  show c'.cycles + cyclesOf i o n = cpu.cycles + cyclesOf i o n ∧ _
  rw [hcycles]
  exact ⟨rfl, cyclesOf_bounds i o hn.2⟩

/-- **The cost of an instruction**, and how it can be cut short. -/
theorem step_holds (cpu : Cpu) :
    (step cpu).Holds
      (fun c s => c.cycles = cpu.cycles ∧
        (s.IsRefusal ∨ ∃ opcode, s = .failed (.unknownOpcode opcode cpu.pc)))
      fun c r => c.cycles = cpu.cycles + r.getD 0 ∧ ∀ n, r = some n → 2 ≤ n ∧ n ≤ 8 := by
  rw [step, Program.holds_bind, holds_get, Program.holds_bind, holds_fetch]
  refine ⟨⟨rfl, Or.inl trivial⟩, fun opcode => ?_⟩
  split
  · rw [holds_pure]
    exact ⟨rfl, fun n hn => by cases hn⟩
  · cases Instruction.decode opcode with
    | none => exact ⟨rfl, Or.inr ⟨opcode, rfl⟩⟩
    | some i =>
        refine holds_map.mpr ?_
        refine (execute_holds i).mono (fun c s h => ⟨h.1, Or.inl h.2⟩) fun c n h => ⟨h.1, ?_⟩
        rintro k ⟨rfl⟩
        exact h.2

theorem interrupt_holds (vector : Word) (cpu : Cpu) :
    (interrupt vector cpu).Holds (fun c s => c.cycles = cpu.cycles ∧ s.IsRefusal)
      fun c n => c.cycles = cpu.cycles + interruptCycles ∧ n = interruptCycles := by
  rw [interrupt, Program.holds_bind, holds_get, Program.holds_bind]
  have hh := ((enterHandler_timeless vector cpu.pc Flags.pushedByInterrupt).holds_cycles cpu).and
    (enterHandler_refusals vector cpu.pc Flags.pushedByInterrupt)
  refine hh.mono (fun _ _ h => h) fun c _ h => ?_
  show c.cycles + interruptCycles = _ ∧ _
  rw [h.1]
  exact ⟨rfl, rfl⟩

/-- A reset has the count of cycles start at those of an interrupt. -/
theorem reset_holds (pc : Option Word) (cpu : Cpu) :
    (reset pc cpu).Holds (fun _ s => s.IsRefusal) fun c _ => c.cycles = interruptCycles := by
  cases pc <;> simp [reset, readWord, Stop.IsRefusal]

end Cpu

end Famicom
