import Famicom.Proofs.Cpu.Dispatch
import Famicom.Proofs.Cpu.Trail

/-! # The bytes of an instruction

Only an instruction fetches, and what it fetches are the bytes that stand one after the other from
the program counter on, as many as its mode tells.  `Activity.Fetches` says so of a tree, whatever
the bus answers: each fetch is at the address after the last one, and no write comes before a fetch,
so that an instruction which changes its own bytes is fetched as it was before.

`Activity.FetchesAll.length_of_ok` counts the bytes on any bus, and `Activity.FetchesAll.full` finds
them in a full memory (`Memory.bytesFrom`).  For a step this is `Cpu.fetched_of_completed` and
`Cpu.fetched_step_full`. -/

namespace Famicom

/-- The `n` bytes from an address on; after the last address comes the first. -/
def Memory.bytesFrom (m : FullMemory) (a : Word) : Nat → List Byte
  | 0 => []
  | n + 1 => m.busRead a :: m.bytesFrom (a + 1) n

namespace Outcome

variable {α β : Type} (o : Outcome α β)

@[simp] theorem fetched_after_fetch (a : Word) (b : Byte) :
    (o.after (.fetch a b)).fetched = b :: o.fetched := rfl

end Outcome

namespace Activity

variable {α β γ : Type}

/-- The activity fetches the bytes from `pc` on, at most `n` of them, and it has fetched all `n`
when it first writes and when it fails.  `post` tells of the state and the value it is done with, of
the address of the next byte and of the number of bytes that it has left. -/
def Fetches (post : Cpu → α → Word → Nat → Prop) : Word → Nat → Activity α → Prop
  | pc, n, done cpu a => post cpu a pc n
  | _, n, fail _ _ => n = 0
  | _, 0, fetch _ _ => False
  | pc, n + 1, fetch cpu next => cpu.pc = pc ∧ ∀ b, (next b).Fetches post (pc + 1) n
  | pc, n, read _ _ next => ∀ b, (next b).Fetches post pc n
  | pc, n, write _ _ _ next => n = 0 ∧ (next ()).Fetches post pc n

/-- The activity fetches the `n` bytes from `pc` on and no others. -/
def FetchesAll (pc : Word) (n : Nat) (t : Activity α) : Prop :=
  t.Fetches (fun _ _ _ left => left = 0) pc n

variable {post post' : Cpu → α → Word → Nat → Prop} {pc : Word} {n : Nat} {t : Activity α}

theorem Fetches.mono (h : t.Fetches post pc n) (hp : ∀ c a w k, post c a w k → post' c a w k) :
    t.Fetches post' pc n := by
  induction t generalizing pc n with
  | done c a => exact hp c a pc n h
  | fail c fault => exact h
  | fetch c next ih =>
      cases n with
      | zero => exact h.elim
      | succ n => exact ⟨h.1, fun b => ih b (h.2 b)⟩
  | read c a next ih => exact fun b => ih b (h b)
  | write c a d next ih => exact ⟨h.1, ih () h.2⟩

theorem fetches_bind {t : Activity γ} {f : Cpu → γ → Activity α} :
    (t.bind f).Fetches post pc n ↔
      t.Fetches (fun c a w k => (f c a).Fetches post w k) pc n := by
  induction t generalizing pc n with
  | done c a => exact Iff.rfl
  | fail c fault => exact Iff.rfl
  | fetch c next ih =>
      cases n with
      | zero => exact Iff.rfl
      | succ n => exact and_congr_right fun _ => forall_congr' fun b => ih b
  | read c a next ih => exact forall_congr' fun b => ih b
  | write c a d next ih => exact and_congr_right fun _ => ih ()

/-! ### Runs -/

/-- A run on a bus that is not cut short fetches the given number of bytes. -/
theorem FetchesAll.length_of_ok [Bus β] (h : t.FetchesAll pc n) {bus : β} {a : α}
    (hr : (t.run bus).result = .ok a) : (t.run bus).fetched.length = n := by
  induction t generalizing pc n bus with
  | done c a => exact h.symm
  | fail c fault => cases hr
  | fetch c next ih =>
      unfold run at hr ⊢
      split at hr
      · cases hr
      · cases n with
        | zero => exact h.elim
        | succ n =>
            rw [Outcome.fetched_after_fetch]
            exact congrArg Nat.succ (ih _ (h.2 _) hr)
  | read c a next ih =>
      unfold run at hr ⊢
      split at hr
      · cases hr
      · exact ih _ (h _) hr
  | write c a d next ih =>
      unfold run at hr ⊢
      split at hr
      · cases hr
      · exact ih () h.2 hr

/-- A run on a full memory fetches what the memory holds at first, however it ends. -/
theorem FetchesAll.full (h : t.FetchesAll pc n) (m : FullMemory) :
    (t.run m).fetched = m.bytesFrom pc n := by
  induction t generalizing pc n m with
  | done c a =>
      cases h
      rfl
  | fail c fault =>
      cases h
      rfl
  | fetch c next ih =>
      cases n with
      | zero => exact h.elim
      | succ n =>
          rw [run_fetch, Outcome.fetched_after_fetch, h.1]
          exact congrArg _ (ih _ (h.2 _) m)
  | read c a next ih =>
      rw [run_read]
      exact ih _ (h _) m
  | write c a d next ih =>
      -- What is written may be an instruction byte, but none is left to fetch.
      obtain ⟨rfl, hnext⟩ := h
      rw [run_write]
      exact ih () hnext _

end Activity

/-! ### Programs -/

namespace Program

variable {α γ : Type} {post : Cpu → α → Word → Nat → Prop} {cpu : Cpu} {pc : Word} {n : Nat}

@[simp] theorem fetches_pure {a : α} :
    ((pure a : Program α) cpu).Fetches post pc n ↔ post cpu a pc n := Iff.rfl

@[simp] theorem fetches_bind {p : Program γ} {f : γ → Program α} :
    ((p >>= f) cpu).Fetches post pc n ↔
      (p cpu).Fetches (fun c a w k => (f a c).Fetches post w k) pc n :=
  Activity.fetches_bind

@[simp] theorem fetches_map {p : Program γ} {f : γ → α} :
    ((f <$> p) cpu).Fetches post pc n ↔
      (p cpu).Fetches (fun c a w k => post c (f a) w k) pc n := by
  rw [← bind_pure_comp]
  exact fetches_bind

@[simp] theorem fetches_fail {fault : Fault} :
    ((fail fault : Program α) cpu).Fetches post pc n ↔ n = 0 := Iff.rfl

@[simp] theorem fetches_get {post : Cpu → Cpu → Word → Nat → Prop} :
    ((get : Program Cpu) cpu).Fetches post pc n ↔ post cpu cpu pc n := Iff.rfl

@[simp] theorem fetches_set {c : Cpu} {post : Cpu → PUnit → Word → Nat → Prop} :
    ((set c : Program PUnit) cpu).Fetches post pc n ↔ post c ⟨⟩ pc n := Iff.rfl

@[simp] theorem fetches_modify {f : Cpu → Cpu} {post : Cpu → PUnit → Word → Nat → Prop} :
    ((modify f : Program PUnit) cpu).Fetches post pc n ↔ post (f cpu) ⟨⟩ pc n := Iff.rfl

@[simp] theorem fetches_fetch {post : Cpu → Byte → Word → Nat → Prop} :
    (fetch cpu).Fetches post pc (n + 1) ↔
      cpu.pc = pc ∧ ∀ b, post { cpu with pc := cpu.pc + 1 } b (pc + 1) n := Iff.rfl

@[simp] theorem fetches_read {a : Word} {post : Cpu → Byte → Word → Nat → Prop} :
    (read a cpu).Fetches post pc n ↔ ∀ b, post cpu b pc n := Iff.rfl

@[simp] theorem fetches_write {a : Word} {d : Byte} {post : Cpu → Unit → Word → Nat → Prop} :
    (write a d cpu).Fetches post pc n ↔ n = 0 ∧ post cpu () pc n := Iff.rfl

end Program

/-! ### Instructions and interrupts -/

open Program
open Activity (FetchesAll)

variable {cpu : Cpu} {pc : Word}

theorem Mode.one_le_instructionSize (m : Mode) : 1 ≤ m.instructionSize := by cases m <;> decide

theorem Mode.instructionSize_le (m : Mode) : m.instructionSize ≤ 3 := by cases m <;> decide

theorem Mode.fetchesAll_operand (m : Mode) :
    (m.operand cpu).FetchesAll cpu.pc (m.instructionSize - 1) := by
  cases m <;> simp [FetchesAll, Mode.operand, instructionSize, fetchWord, readPointer]

theorem Program.fetchesAll_enterHandler (vector back : Word) (status : Flags → Byte) :
    (enterHandler vector back status cpu).FetchesAll pc 0 := by
  simp [FetchesAll, enterHandler, pushWord, push, readWord, jumpTo]

theorem Operation.fetchesAll_perform (op : Operation) (o : Operand) :
    (op.perform o cpu).FetchesAll pc 0 := by
  cases op with
  | load effect => cases o <;> simp [FetchesAll, perform, Operand.load]
  | store value => cases o <;> simp [FetchesAll, perform, Operand.store]
  | alter change effect =>
      cases o <;> simp [FetchesAll, perform, Operand.load, Operand.store]
  | branch taken =>
      rw [FetchesAll, perform, fetches_bind]
      have hl : (o.load cpu).FetchesAll pc 0 := by
        cases o <;> simp [FetchesAll, Operand.load]
      refine hl.mono ?_
      rintro c distance w _ rfl
      rw [fetches_bind, fetches_get]
      split <;> rfl
  | skip | internal effect => simp [FetchesAll, perform]
  | push value | pull effect | jump | call | returnFromCall | returnFromInterrupt =>
      simp [FetchesAll, perform, Program.push, Program.pull, pushWord, pullWord, jumpTo]
  | softwareInterrupt =>
      simp only [FetchesAll, perform, fetches_bind, fetches_get]
      exact (fetchesAll_enterHandler _ _ _).mono fun _ _ _ _ h => h

namespace Cpu

theorem fetchesAll_execute (i : Instruction) :
    (execute i cpu).FetchesAll cpu.pc (i.mode.instructionSize - 1) := by
  rw [FetchesAll, execute, fetches_bind]
  refine i.mode.fetchesAll_operand.mono ?_
  rintro c operand w _ rfl
  rw [fetches_bind]
  exact (i.mnemonic.operation.fetchesAll_perform operand).mono fun _ _ _ _ h => h

/-- The number of bytes that are fetched after an opcode: none if it halts the processor or is
unknown. -/
def bytesAfter (start : Cpu) (opcode : Byte) : Nat :=
  if opcode = 0 ∧ start.breakHalts then 0
  else
    match Instruction.decode opcode with
    | none => 0
    | some i => i.mode.instructionSize - 1

theorem fetchesAll_dispatch (start : Cpu) (opcode : Byte) :
    (dispatch start opcode cpu).FetchesAll cpu.pc (bytesAfter start opcode) := by
  unfold dispatch bytesAfter
  split
  · rfl
  · cases Instruction.decode opcode with
    | none => rfl
    | some i =>
        rw [FetchesAll, fetches_map]
        exact fetchesAll_execute i

/-- **The bytes of an instruction**: a step that is completed has fetched an opcode and as many
bytes after it as the mode tells. -/
theorem fetched_of_completed {β : Type} [Bus β] {bus : β} {n : Nat}
    (h : (step.run cpu bus).result = .ok (some n)) :
    ∃ opcode i rest, Instruction.decode opcode = some i ∧
      (step.run cpu bus).fetched = opcode :: rest ∧ rest.length + 1 = i.mode.instructionSize := by
  cases hf : Bus.readFault? bus cpu.pc with
  | some fault =>
      rw [step_run_of_fault hf] at h
      cases h
  | none =>
      rw [step_run_of_fetched hf] at h ⊢
      generalize (Bus.read bus cpu.pc).1 = opcode at h ⊢
      have hlength := (fetchesAll_dispatch cpu opcode).length_of_ok h
      rw [Outcome.fetched_after_fetch]
      by_cases hhalt : opcode = 0 ∧ cpu.breakHalts
      · rw [dispatch_of_halt hhalt] at h
        cases h
      cases hd : Instruction.decode opcode with
      | none =>
          rw [dispatch_of_unknown hd] at h
          cases h
      | some i =>
          refine ⟨opcode, i, _, hd, rfl, (congrArg Nat.succ hlength).trans ?_⟩
          rw [bytesAfter, if_neg hhalt, hd]
          exact Nat.sub_add_cancel i.mode.one_le_instructionSize

/-- A step on a full memory fetches what the memory holds at first, however it ends. -/
theorem fetched_step_full (cpu : Cpu) (m : FullMemory) :
    (step.run cpu m).fetched =
      m.busRead cpu.pc :: m.bytesFrom (cpu.pc + 1) (bytesAfter cpu (m.busRead cpu.pc)) := by
  rw [step_run_full, Outcome.fetched_after_fetch]
  exact congrArg _ ((fetchesAll_dispatch cpu _).full m)

theorem fetchesAll_interrupt (vector : Word) : (interrupt vector cpu).FetchesAll pc 0 := by
  rw [FetchesAll, interrupt, fetches_bind, fetches_get, fetches_bind]
  exact (fetchesAll_enterHandler _ _ _).mono fun _ _ _ _ h => h

theorem fetchesAll_irq : (irq cpu).FetchesAll pc 0 := by
  rw [FetchesAll, irq, fetches_bind, fetches_get]
  split
  · rfl
  · exact fetchesAll_interrupt irqVector

theorem fetchesAll_reset (start : Option Word) : (reset start cpu).FetchesAll pc 0 := by
  cases start <;> simp [FetchesAll, reset, readWord]

/-- Nothing but an instruction fetches. -/
theorem Order.fetchesAll_of_ne_step {o : Order} (h : o ≠ .call .step) :
    (o.program cpu).FetchesAll pc 0 := by
  cases o with
  | call c =>
      cases c with
      | step => exact absurd rfl h
      | nmi =>
          rw [FetchesAll, program, Call.program, fetches_map]
          exact fetchesAll_interrupt nmiVector
      | irq =>
          rw [FetchesAll, program, Call.program, fetches_map]
          exact fetchesAll_irq
  | reset start =>
      rw [FetchesAll, program, fetches_map]
      exact fetchesAll_reset start

end Cpu

end Famicom
