import Famicom.Cpu.Step
import Famicom.Proofs.Activity

/-! # The count of cycles and everything else

The processor counts its cycles, but nothing it does depends on the count.  A program is *timeless*
(`Program.Timeless`) if a change of the count before it is the same as that change all along it.
To find the operand of an instruction and to carry an operation out are timeless
(`Mode.operand_timeless`, `Mnemonic.perform_timeless`), which says two things at once: the count
stays as it is (`Program.Timeless.holds_cycles`), and another count leads to the same activity.

A whole instruction and an interrupt add to the count at the end.  They commute with all changes
that commute with adding, and so with a delay (`Cpu.step_later`, `Cpu.interrupt_later`). -/

namespace Famicom

/-- The processor with its count of cycles changed. -/
def Cpu.mapCycles (g : Nat → Nat) (c : Cpu) : Cpu := { c with cycles := g c.cycles }

/-- The processor in the same state a number of cycles later. -/
def Cpu.later (n : Nat) (c : Cpu) : Cpu := c.mapCycles (· + n)

namespace Activity

variable {α β γ : Type} {w : Cpu → Cpu}

/-- The activity in which each state of the processor is changed.  The activity goes on as before:
requests do not follow the change. -/
def mapCpu (w : Cpu → Cpu) : Activity α → Activity α
  | done cpu a => done (w cpu) a
  | fail cpu fault => fail (w cpu) fault
  | fetch cpu next => fetch (w cpu) fun b => (next b).mapCpu w
  | read cpu a next => read (w cpu) a fun b => (next b).mapCpu w
  | write cpu a d next => write (w cpu) a d fun u => (next u).mapCpu w

theorem bind_mapCpu (t : Activity α) {f f' : Cpu → α → Activity γ}
    (h : ∀ c a, f' (w c) a = (f c a).mapCpu w) : (t.mapCpu w).bind f' = (t.bind f).mapCpu w := by
  induction t with
  | done c a => exact h c a
  | fail c fault => rfl
  | fetch c next ih => simp only [mapCpu, bind, ih]
  | read c a next ih => simp only [mapCpu, bind, ih]
  | write c a d next ih => simp only [mapCpu, bind, ih]

theorem holds_mapCpu {stop : Cpu → Stop → Prop} {post : Cpu → α → Prop}
    (hpc : ∀ c, (w c).pc = c.pc) (t : Activity α) :
    (t.mapCpu w).Holds stop post ↔ t.Holds (fun c => stop (w c)) (fun c => post (w c)) := by
  induction t with
  | done c a => exact Iff.rfl
  | fail c fault => exact Iff.rfl
  | fetch c next ih => simp only [mapCpu, Holds, hpc, ih]
  | read c a next ih => simp only [mapCpu, Holds, ih]
  | write c a d next ih => simp only [mapCpu, Holds, ih]

/-- A change that keeps the program counter does not show on the bus. -/
theorem run_mapCpu [Bus β] (hpc : ∀ c, (w c).pc = c.pc) (t : Activity α) (bus : β) :
    (t.mapCpu w).run bus = { t.run bus with cpu := w (t.run bus).cpu } := by
  induction t generalizing bus with
  | done c a => rfl
  | fail c fault => rfl
  | fetch c next ih =>
      simp only [mapCpu, run, hpc]
      split
      · rfl
      · rw [ih]
        rfl
  | read c a next ih =>
      simp only [mapCpu, run]
      split
      · rfl
      · rw [ih]
        rfl
  | write c a d next ih =>
      simp only [mapCpu, run]
      split
      · rfl
      · rw [ih]
        rfl

end Activity

namespace Program

variable {α γ : Type}

/-- To change states before the program is to change them all along it. -/
def Commutes (w : Cpu → Cpu) (p : Program α) : Prop := ∀ cpu, p (w cpu) = (p cpu).mapCpu w

/-- The program neither looks at the count of cycles nor changes it. -/
def Timeless (p : Program α) : Prop := ∀ g, p.Commutes (Cpu.mapCycles g)

section Commutes
variable {w : Cpu → Cpu}

theorem commutes_pure (a : α) : (pure a : Program α).Commutes w := fun _ => rfl

theorem commutes_fail (fault : Fault) : (fail fault : Program α).Commutes w := fun _ => rfl

theorem Commutes.bind {p : Program γ} {f : γ → Program α} (hp : p.Commutes w)
    (hf : ∀ a, (f a).Commutes w) : (p >>= f).Commutes w := by
  intro cpu
  show (p (w cpu)).bind _ = ((p cpu).bind _).mapCpu w
  rw [hp cpu]
  exact Activity.bind_mapCpu _ fun c a => hf a c

theorem Commutes.map {p : Program γ} (hp : p.Commutes w) (f : γ → α) : (f <$> p).Commutes w := by
  rw [← bind_pure_comp]
  exact hp.bind fun a => commutes_pure _

/-- A program that looks at the state commutes with a change which it does not see. -/
theorem commutes_get_bind {f : Cpu → Program α} (hw : ∀ c, f (w c) = f c)
    (hf : ∀ c, (f c).Commutes w) : (get >>= f).Commutes w := by
  intro cpu
  show f (w cpu) (w cpu) = (f cpu cpu).mapCpu w
  rw [hw, hf]

theorem commutes_modify {f : Cpu → Cpu} (h : ∀ c, f (w c) = w (f c)) :
    (modify f : Program PUnit).Commutes w := by
  intro cpu
  show Activity.done (f (w cpu)) _ = Activity.done (w (f cpu)) _
  rw [h]

end Commutes

section Timeless
variable {p : Program γ} {f : γ → Program α}

theorem timeless_pure (a : α) : (pure a : Program α).Timeless := fun _ => commutes_pure a

theorem Timeless.bind (hp : p.Timeless) (hf : ∀ a, (f a).Timeless) : (p >>= f).Timeless :=
  fun g => (hp g).bind fun a => hf a g

theorem timeless_get_bind {f : Cpu → Program α} (hw : ∀ g c, f (Cpu.mapCycles g c) = f c)
    (hf : ∀ c, (f c).Timeless) : (get >>= f).Timeless :=
  fun g => commutes_get_bind (hw g) fun c => hf c g

theorem timeless_modify {f : Cpu → Cpu} (h : ∀ g c, f (Cpu.mapCycles g c) = (f c).mapCycles g) :
    (modify f : Program PUnit).Timeless :=
  fun g => commutes_modify (h g)

theorem fetch_timeless : fetch.Timeless := fun _ _ => rfl

theorem read_timeless (a : Word) : (read a).Timeless := fun _ _ => rfl

theorem write_timeless (a : Word) (d : Byte) : (write a d).Timeless := fun _ _ => rfl

theorem fetchWord_timeless : fetchWord.Timeless :=
  fetch_timeless.bind fun _ => fetch_timeless.bind fun _ => timeless_pure _

theorem readWord_timeless (a : Word) : (readWord a).Timeless :=
  (read_timeless _).bind fun _ => (read_timeless _).bind fun _ => timeless_pure _

theorem readPointer_timeless (a : Word) : (readPointer a).Timeless :=
  (read_timeless _).bind fun _ => (read_timeless _).bind fun _ => timeless_pure _

theorem push_timeless (d : Byte) : (push d).Timeless := fun _ _ => rfl

theorem pull_timeless : pull.Timeless := fun _ _ => rfl

theorem pushWord_timeless (d : Word) : (pushWord d).Timeless :=
  (push_timeless _).bind fun _ => push_timeless _

theorem pullWord_timeless : pullWord.Timeless :=
  pull_timeless.bind fun _ => pull_timeless.bind fun _ => timeless_pure _

theorem jumpTo_timeless (a : Word) : (jumpTo a).Timeless := timeless_modify fun _ _ => rfl

theorem enterHandler_timeless (vector back : Word) (status : Flags → Byte) :
    (enterHandler vector back status).Timeless := by
  refine (pushWord_timeless back).bind fun _ => ?_
  refine timeless_get_bind (fun _ _ => rfl) fun c => ?_
  refine (push_timeless _).bind fun _ => ?_
  refine (timeless_modify fun _ _ => rfl).bind fun _ => ?_
  exact (readWord_timeless vector).bind jumpTo_timeless

/-- A timeless program leaves the count of cycles as it is, wherever it ends. -/
theorem Timeless.holds_cycles {p : Program α} (hp : p.Timeless) (cpu : Cpu) :
    (p cpu).Holds (fun c _ => c.cycles = cpu.cycles) (fun c _ => c.cycles = cpu.cycles) := by
  have h : p cpu = (p cpu).mapCpu (Cpu.mapCycles fun _ => cpu.cycles) :=
    hp (fun _ => cpu.cycles) cpu
  rw [h, Activity.holds_mapCpu (w := Cpu.mapCycles fun _ => cpu.cycles) fun _ => rfl]
  exact Activity.holds_of_forall _ (fun _ _ => rfl) fun _ _ => rfl

end Timeless

end Program

open Program

/-! ### Operands and operations -/

namespace Operand

theorem load_timeless (o : Operand) : o.load.Timeless := by
  cases o with
  | none => exact timeless_pure _
  | accumulator => exact timeless_get_bind (fun _ _ => rfl) fun c => timeless_pure _
  | value b => exact timeless_pure _
  | cell a crossed => exact read_timeless a

theorem store_timeless (o : Operand) (b : Byte) : (o.store b).Timeless := by
  cases o with
  | none => exact timeless_pure _
  | accumulator => exact timeless_modify fun _ _ => rfl
  | value b => exact timeless_pure _
  | cell a crossed => exact write_timeless a b

end Operand

theorem Mode.operand_timeless (m : Mode) : m.operand.Timeless := by
  cases m with
  | accumulator | implied => exact timeless_pure _
  | immediate | relative | zeroPage => exact fetch_timeless.bind fun _ => timeless_pure _
  | zeroPageX | zeroPageY =>
      refine fetch_timeless.bind fun _ => ?_
      exact timeless_get_bind (fun _ _ => rfl) fun c => timeless_pure _
  | absolute => exact fetchWord_timeless.bind fun _ => timeless_pure _
  | absoluteX | absoluteY =>
      refine fetchWord_timeless.bind fun _ => ?_
      exact timeless_get_bind (fun _ _ => rfl) fun c => timeless_pure _
  | indirect =>
      refine fetchWord_timeless.bind fun _ => ?_
      exact (readPointer_timeless _).bind fun _ => timeless_pure _
  | indirectX =>
      refine fetch_timeless.bind fun _ => ?_
      refine timeless_get_bind (fun _ _ => rfl) fun c => ?_
      exact (readPointer_timeless _).bind fun _ => timeless_pure _
  | indirectY =>
      refine fetch_timeless.bind fun _ => ?_
      refine (readPointer_timeless _).bind fun _ => ?_
      exact timeless_get_bind (fun _ _ => rfl) fun c => timeless_pure _

/-- What the operation does to registers and takes from them has nothing to do with the count of
cycles. -/
def Operation.Timeless : Operation → Prop
  | load effect | pull effect | alter _ effect =>
    ∀ b g c, effect b (Cpu.mapCycles g c) = (effect b c).mapCycles g
  | store value | push value => ∀ g c, value (Cpu.mapCycles g c) = value c
  | internal effect => ∀ g c, effect (Cpu.mapCycles g c) = (effect c).mapCycles g
  | skip | branch _ | jump | call | returnFromCall | returnFromInterrupt | softwareInterrupt => True

theorem Mnemonic.operation_timeless (m : Mnemonic) : m.operation.Timeless := by
  cases m <;> first | trivial | exact fun _ _ _ => rfl | exact fun _ _ => rfl

namespace Operation

theorem branch_timeless (taken : Flags → Bool) (o : Operand) :
    ((branch taken).perform o).Timeless := by
  refine o.load_timeless.bind fun distance => ?_
  refine timeless_get_bind (fun _ _ => rfl) fun c => ?_
  by_cases h : taken c.flags = true
  · rw [if_pos h]
    exact (jumpTo_timeless _).bind fun _ => timeless_pure _
  · rw [if_neg h]
    exact timeless_pure _

theorem perform_timeless {op : Operation} (h : op.Timeless) (o : Operand) :
    (op.perform o).Timeless := by
  cases op with
  | load effect =>
      refine o.load_timeless.bind fun b => ?_
      exact (timeless_modify (h b)).bind fun _ => timeless_pure _
  | store value =>
      refine timeless_get_bind (fun g c => ?_) fun c => ?_
      · rw [h g c]
      · exact (o.store_timeless _).bind fun _ => timeless_pure _
  | alter change effect =>
      refine o.load_timeless.bind fun b => ?_
      -- the state is read and stored back with new flags, so `set` sees a count after all
      intro g cpu
      have hs : (o.store (change b cpu.flags).1 >>= fun _ =>
          modify (effect (change b cpu.flags).1) >>= fun _ => pure 0 : Program Nat).Timeless :=
        (o.store_timeless _).bind fun _ => (timeless_modify (h _)).bind fun _ => timeless_pure _
      exact hs g { cpu with flags := (change b cpu.flags).2 }
  | skip => exact timeless_pure _
  | internal effect => exact (timeless_modify h).bind fun _ => timeless_pure _
  | branch taken => exact branch_timeless taken o
  | push value =>
      refine timeless_get_bind (fun g c => ?_) fun c => ?_
      · rw [h g c]
      · exact (push_timeless _).bind fun _ => timeless_pure _
  | pull effect =>
      refine pull_timeless.bind fun b => ?_
      exact (timeless_modify (h b)).bind fun _ => timeless_pure _
  | jump => exact (jumpTo_timeless _).bind fun _ => timeless_pure _
  | call =>
      refine timeless_get_bind (fun _ _ => rfl) fun c => ?_
      refine (pushWord_timeless _).bind fun _ => ?_
      exact (jumpTo_timeless _).bind fun _ => timeless_pure _
  | returnFromCall =>
      refine pullWord_timeless.bind fun _ => ?_
      exact (jumpTo_timeless _).bind fun _ => timeless_pure _
  | returnFromInterrupt =>
      refine pull_timeless.bind fun _ => ?_
      refine (timeless_modify fun _ _ => rfl).bind fun _ => ?_
      refine pullWord_timeless.bind fun _ => ?_
      exact (jumpTo_timeless _).bind fun _ => timeless_pure _
  | softwareInterrupt =>
      refine timeless_get_bind (fun _ _ => rfl) fun c => ?_
      exact (enterHandler_timeless _ _ _).bind fun _ => timeless_pure _

end Operation

theorem Mnemonic.perform_timeless (m : Mnemonic) (o : Operand) :
    (m.operation.perform o).Timeless :=
  Operation.perform_timeless m.operation_timeless o

/-! ### Instructions and interrupts -/

namespace Cpu

variable (n : Nat)

theorem spend_later (k : Nat) : (spend k).Commutes (later n) := by
  refine commutes_modify fun c => ?_
  simp only [later, mapCycles, Nat.add_right_comm]

theorem execute_later (i : Instruction) : (execute i).Commutes (later n) := by
  refine (i.mode.operand_timeless _).bind fun o => ?_
  refine (i.mnemonic.perform_timeless o _).bind fun b => ?_
  exact (spend_later n _).bind fun _ => commutes_pure _

/-- **An instruction does the same at any time.** -/
theorem step_later : step.Commutes (later n) := by
  refine commutes_get_bind (fun _ => rfl) fun start => ?_
  refine (fetch_timeless _).bind fun opcode => ?_
  split
  · exact commutes_pure _
  · split
    · exact commutes_fail _
    · exact (execute_later n _).map _

theorem interrupt_later (vector : Word) : (interrupt vector).Commutes (later n) := by
  refine commutes_get_bind (fun _ => rfl) fun start => ?_
  refine (enterHandler_timeless _ _ _ _).bind fun _ => ?_
  exact (spend_later n _).bind fun _ => commutes_pure _

end Cpu

end Famicom
