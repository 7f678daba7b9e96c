import Famicom.Proofs.Cpu.Frame
import Famicom.Proofs.Cpu.Trail

/-! # Brackets on the stack

What is put on the stack is taken from it again by a bracket of two calls: an instruction pair such
as `pha` and `pla`, or an interrupt and the return from it (`Cpu.Bracket`).  Between the two there
may be other brackets, and whatever else spares the stack (`Trail.Spares`), to any depth and in any
number (`Trail.Nesting`).

The invariant is about cells: a nesting whose brackets have at most `n` bytes on the stack at once
leaves the stack pointer and all cells of page one but the `n` below it (`Trail.Nesting.keeps`).
While `n` is at most 256, these are different from the cells that enclosing brackets have filled,
wherever the stack pointer goes round.  So each bracket finds its bytes
(`Trail.nesting_restores`). -/

namespace Famicom.Cpu

open Program

/-! ### Brackets -/

/-- What puts bytes on the stack, with what takes them from there. -/
inductive Bracket where
  /-- From `pha` to `pla`. -/
  | accumulator
  /-- From `php` to `plp`. -/
  | status
  /-- From `jsr` to `rts`. -/
  | subroutine
  /-- From an interrupt to `rti`. -/
  | nmi
  | irq
  /-- From `brk` to `rti`. -/
  | brk
deriving Repr, DecidableEq

namespace Bracket

/-- The call that opens a bracket. -/
def opener : Bracket → Call
  | nmi => .nmi
  | irq => .irq
  | accumulator | status | subroutine | brk => .step

/-- The instruction that closes a bracket. -/
def closer : Bracket → Mnemonic
  | accumulator => .pla
  | status => .plp
  | subroutine => .rts
  | nmi | irq | brk => .rti

/-- The break flag of the status byte that a bracket has on the stack, if it has one. -/
def breakFlag? : Bracket → Option Bool
  | accumulator | subroutine => none
  | status | brk => some true
  | nmi | irq => some false

/-- Where a bracket that was opened at an address leads back to, if it leads back. -/
def back? (pc : Word) : Bracket → Option Word
  | accumulator | status => none
  | subroutine => some (pc + 3)
  | nmi | irq => some pc
  | brk => some (pc + 2)

/-- The bytes that a bracket has on the stack, in the order in which they are put there. -/
def bytes (c : Cpu) : Bracket → List Byte
  | accumulator => [c.a]
  | status => [c.flags.pushedBySoftware]
  | subroutine => [(c.pc + 2).high, (c.pc + 2).low]
  | nmi | irq => [c.pc.high, c.pc.low, c.flags.pushedByInterrupt]
  | brk => [(c.pc + 2).high, (c.pc + 2).low, c.flags.pushedBySoftware]

/-- The number of bytes that a bracket has on the stack. -/
def size : Bracket → Nat
  | accumulator | status => 1
  | subroutine => 2
  | nmi | irq | brk => 3

theorem length_bytes (b : Bracket) (c : Cpu) : (b.bytes c).length = b.size := by
  cases b <;> rfl

theorem getElem?_status {b : Bracket} {brk : Bool} (h : b.breakFlag? = some brk) (c : Cpu) :
    (b.bytes c)[b.size - 1]? = some { c.flags with brk := brk, unused := true }.toByte := by
  cases b <;> cases h <;> rfl

end Bracket

/-! ### Nestings -/

namespace Trail

/-- The next instruction of a trail has the mnemonic. -/
def Reaches (t : Trail FullMemory) (mnemonic : Mnemonic) : Prop :=
  ∃ i, Instruction.decode (t.bus.busRead t.cpu.pc) = some i ∧ i.mnemonic = mnemonic

/-- A bracket can be opened at the end of a trail. -/
def CanOpen (t : Trail FullMemory) : Bracket → Prop
  | .accumulator => t.Reaches .pha
  | .status => t.Reaches .php
  | .subroutine => t.Reaches .jsr
  | .nmi => True
  | .irq => t.cpu.flags.interruptDisable = false
  | .brk => t.Reaches .brk ∧ t.cpu.breakHalts = false

/-- Whatever leads from one end to the other leaves the stack pointer and page one as they were. -/
structure Spares (t t' : Trail FullMemory) : Prop where
  sp : t'.cpu.sp = t.cpu.sp
  memory : ∀ s, t'.bus.busRead (.stackCell s) = t.bus.busRead (.stackCell s)

end Trail

/-- The next step closes a bracket that the given processor has opened: it brings back what was put on
the stack, of the flags all but the two that do not count. -/
structure Bracket.Closes (b : Bracket) (c : Cpu) (t : Trail FullMemory) : Prop where
  completed : ∃ n, (t.outcome .step).result = .ok (some n)
  sp : (t.call .step).cpu.sp = c.sp
  bus : (t.call .step).bus = t.bus
  a : b = .accumulator → (t.call .step).cpu.a = c.a
  pc : ∀ back, b.back? c.pc = some back → (t.call .step).cpu.pc = back
  flags : ∀ brk, b.breakFlag? = some brk →
    (t.call .step).cpu.flags = { c.flags with brk := false, unused := true }

/-- A bracket, with the trail before it is opened and the one before it is closed. -/
structure Round where
  bracket : Bracket
  start : Trail FullMemory
  finish : Trail FullMemory

namespace Round

/-- The trail behind the opening of a bracket. -/
def opened (r : Round) : Trail FullMemory := r.start.call r.bracket.opener

/-- A bracket does what it should. -/
structure Restores (r : Round) : Prop where
  opens : ∃ n, (r.start.outcome r.bracket.opener).result = .ok (some n)
  closes : r.bracket.Closes r.start.cpu r.finish
  /-- What `pha` has put on the stack is the accumulator. -/
  byte : r.bracket = .accumulator →
    r.opened.bus.busRead (.stackCell r.start.cpu.sp) = r.start.cpu.a
  /-- The status byte is the last that has been put on the stack. -/
  status : ∀ brk, r.bracket.breakFlag? = some brk →
    Flags.ofByte (r.opened.bus.busRead (.cellBelow r.start.cpu.sp (r.bracket.size - 1))) =
      { r.start.cpu.flags with brk := brk, unused := true }

end Round

namespace Trail

/-- The trail from one end to the other consists of brackets one after the other and one in another.
They have at most `n` bytes on the stack at once. -/
inductive Nesting : Nat → Trail FullMemory → List Round → Trail FullMemory → Prop
  | idle {t t'} (h : t.Spares t') : Nesting 0 t [] t'
  | append {n n' t t' t'' rs rs'} (h : Nesting n t rs t') (h' : Nesting n' t' rs' t'') :
    Nesting (max n n') t (rs ++ rs') t''
  | enclose {n t t' rs} (bracket : Bracket) (hopens : t.CanOpen bracket)
    (inner : Nesting n (t.call bracket.opener) rs t') (hcloses : t'.Reaches bracket.closer) :
    Nesting (bracket.size + n) t (⟨bracket, t, t'⟩ :: rs) (t'.call .step)

end Trail

/-! ### Opening and closing -/

namespace Trail

variable {t : Trail FullMemory} {i : Instruction}

/-- An instruction that sets neither the stack pointer nor a cell of page one spares the stack. -/
theorem spares_step (hd : Instruction.decode (t.bus.busRead t.cpu.pc) = some i)
    (hgo : ¬ (t.bus.busRead t.cpu.pc = 0 ∧ t.cpu.breakHalts)) (hsp : ¬ i.MayChange .sp)
    (hcells : ∀ a ∈ i.cellsChanged t.cpu t.bus.busRead, a.high ≠ 1) :
    t.Spares (t.call .step) := by
  have hframe := frame_of_decode hd hgo
  refine ⟨hframe.parts .sp hsp, fun s => hframe.memory _ fun hs => ?_⟩
  exact hcells _ hs (Word.high_ofBytes 1 s)

theorem busRead_call_step (hd : Instruction.decode (t.bus.busRead t.cpu.pc) = some i)
    (hbrk : i.mnemonic ≠ .brk) (hcells : ∀ a ∈ i.cellsChanged t.cpu t.bus.busRead, a.high = 1)
    (a : Word) (ha : a.high ≠ 1) : (t.call .step).bus.busRead a = t.bus.busRead a :=
  (frame_of_decode hd (not_halt_of_decode hd hbrk)).memory a fun h => ha (hcells a h)

theorem pc_call_step (hd : Instruction.decode (t.bus.busRead t.cpu.pc) = some i)
    (hbrk : i.mnemonic ≠ .brk) (hi : ¬ i.MayChange .pc) {pc : Word} (hpc : t.cpu.pc = pc) :
    (t.call .step).cpu.pc = pc + BitVec.ofNat 16 i.mode.instructionSize := by
  rw [← hpc]
  exact (frame_of_decode hd (not_halt_of_decode hd hbrk)).parts .pc hi

/-- What a step does to a trail. -/
theorem call_step (hd : Instruction.decode (t.bus.busRead t.cpu.pc) = some i)
    (hgo : ¬ (t.bus.busRead t.cpu.pc = 0 ∧ t.cpu.breakHalts)) :
    let p := i.mnemonic.operation.performed (i.mode.operandAt t.cpu t.bus.busRead)
      (t.cpu.past i.mode) t.bus
    ∃ n, (t.outcome .step).result = .ok (some n) ∧ (t.call .step).cpu = p.cpu.later n ∧
      (t.call .step).bus = p.memory := by
  have hstep := step_performed hd hgo
  exact ⟨_, congrArg Outcome.result hstep, congrArg Outcome.cpu hstep,
    congrArg Outcome.bus hstep⟩

end Trail

/-- The modes of the instructions that put the way back on the stack. -/
theorem mode_of_way {opcode : Byte} {i : Instruction} (hd : Instruction.decode opcode = some i) :
    (i.mnemonic = .jsr → i.mode = .absolute) ∧ (i.mnemonic = .brk → i.mode = .implied) := by
  refine Instruction.of_decode (P := fun i =>
    (i.mnemonic = .jsr → i.mode = .absolute) ∧ (i.mnemonic = .brk → i.mode = .implied)) ?_ hd
  decide +kernel

/-- **A bracket is opened** by putting its bytes on the stack. -/
theorem Trail.opened {t : Trail FullMemory} {b : Bracket} (h : t.CanOpen b) :
    (∃ n, (t.outcome b.opener).result = .ok (some n)) ∧
      (t.call b.opener).cpu.sp = t.cpu.sp - BitVec.ofNat 8 b.size ∧
      (t.call b.opener).bus = t.bus.pushed t.cpu.sp (b.bytes t.cpu) := by
  cases b with
  | accumulator | status =>
      obtain ⟨i, hd, hi⟩ := h
      obtain ⟨n, hresult, hcpu, hbus⟩ := call_step hd (not_halt_of_decode hd (by simp [hi]))
      rw [hi] at hcpu hbus
      exact ⟨⟨n, hresult⟩, congrArg Cpu.sp hcpu, hbus⟩
  | subroutine =>
      obtain ⟨i, hd, hi⟩ := h
      obtain ⟨n, hresult, hcpu, hbus⟩ := call_step hd (not_halt_of_decode hd (by simp [hi]))
      rw [hi, (mode_of_way hd).1 hi] at hcpu hbus
      have hback : (t.cpu.past .absolute).pc - 1 = t.cpu.pc + 2 := by
        show t.cpu.pc + 3#16 - 1 = t.cpu.pc + 2
        bv_omega
      refine ⟨⟨n, hresult⟩, congrArg Cpu.sp hcpu, hbus.trans ?_⟩
      exact congrArg (fun w : Word => t.bus.pushed t.cpu.sp [w.high, w.low]) hback
  | brk =>
      obtain ⟨⟨i, hd, hi⟩, hbreak⟩ := h
      obtain ⟨n, hresult, hcpu, hbus⟩ := call_step hd (by simp [hbreak])
      rw [hi, (mode_of_way hd).2 hi] at hcpu hbus
      have hback : (t.cpu.past .implied).pc + 1 = t.cpu.pc + 2 := BitVec.add_assoc ..
      refine ⟨⟨n, hresult⟩, congrArg Cpu.sp hcpu, hbus.trans ?_⟩
      exact congrArg (fun w => t.bus.interrupted t.cpu.sp w t.cpu.flags.pushedBySoftware) hback
  | nmi =>
      rw [Trail.call, Trail.outcome, Bracket.opener, Call.program, run_map, nmi, run_interrupt]
      exact ⟨⟨_, rfl⟩, rfl, rfl⟩
  | irq =>
      have hmask : ¬ t.cpu.flags.interruptDisable = true := Bool.eq_false_iff.mp h
      rw [Trail.call, Trail.outcome, Bracket.opener, Call.program, run_map, run_irq, if_neg hmask,
        run_interrupt]
      exact ⟨⟨_, rfl⟩, rfl, rfl⟩

/-- Bytes that are still where they have been put are taken back in the opposite order. -/
theorem busRead_pull {m : FullMemory} {sp : Byte} {ds : List Byte}
    (hfound : ∀ k d, ds[k]? = some d → m.busRead (.cellBelow sp k) = d) {j k : Nat} {d : Byte}
    (hd : ds[k]? = some d) (hj : j + k = ds.length) :
    m.busRead (.stackCell (sp - BitVec.ofNat 8 ds.length + BitVec.ofNat 8 j)) = d := by
  have hcell : sp - BitVec.ofNat 8 ds.length + BitVec.ofNat 8 j = sp - BitVec.ofNat 8 k := by
    rw [← hj, BitVec.ofNat_add]
    bv_omega
  rw [hcell]
  exact hfound k d hd

theorem pulled_pushed (f : Flags) :
    Flags.pulled f.pushedBySoftware = { f with brk := false, unused := true } ∧
      Flags.pulled f.pushedByInterrupt = { f with brk := false, unused := true } := by
  simp [Flags.pulled, Flags.pushedBySoftware, Flags.pushedByInterrupt, Flags.ofByte_toByte]

/-- **A bracket is closed** by taking its bytes from the stack, if they are still there. -/
theorem Trail.closed {t : Trail FullMemory} {b : Bracket} {c : Cpu} (h : t.Reaches b.closer)
    (hsp : t.cpu.sp = c.sp - BitVec.ofNat 8 b.size)
    (hfound : ∀ k d, (b.bytes c)[k]? = some d → t.bus.busRead (.cellBelow c.sp k) = d) :
    b.Closes c t := by
  obtain ⟨i, hd, hi⟩ := h
  have hbrk : i.mnemonic ≠ .brk := by
    rw [hi]
    cases b <;> decide
  obtain ⟨n, hresult, hcpu, hbus⟩ := call_step hd (not_halt_of_decode hd hbrk)
  have hpull {j k : Nat} {d : Byte} (hd : (b.bytes c)[k]? = some d) (hj : j + k = b.size) :
      t.bus.busRead (.stackCell (t.cpu.sp + BitVec.ofNat 8 j)) = d := by
    rw [hsp, ← b.length_bytes c]
    exact busRead_pull hfound hd (hj.trans (b.length_bytes c).symm)
  have hback : t.cpu.sp + BitVec.ofNat 8 b.size = c.sp := by
    rw [hsp]
    exact BitVec.sub_add_cancel ..
  rw [hi] at hcpu hbus
  cases b with
  | accumulator =>
      have hbyte := hpull (j := 1) (k := 0) rfl rfl
      refine ⟨⟨n, hresult⟩, (congrArg Cpu.sp hcpu).trans hback, hbus, fun _ => ?_, nofun, nofun⟩
      exact (congrArg Cpu.a hcpu).trans hbyte
  | status =>
      have hstatus := hpull (j := 1) (k := 0) rfl rfl
      refine ⟨⟨n, hresult⟩, (congrArg Cpu.sp hcpu).trans hback, hbus, nofun, nofun, ?_⟩
      rintro _ ⟨⟩
      refine (congrArg Cpu.flags hcpu).trans ?_
      exact (congrArg Flags.pulled hstatus).trans (pulled_pushed c.flags).1
  | subroutine =>
      have hlow := hpull (j := 1) (k := 1) rfl rfl
      have hhigh := hpull (j := 2) (k := 0) rfl rfl
      refine ⟨⟨n, hresult⟩, (congrArg Cpu.sp hcpu).trans hback, hbus, nofun, ?_, nofun⟩
      rintro _ ⟨⟩
      calc (t.call .step).cpu.pc
        _ = .ofBytes (t.bus.busRead (.stackCell (t.cpu.sp + BitVec.ofNat 8 2)))
              (t.bus.busRead (.stackCell (t.cpu.sp + BitVec.ofNat 8 1))) + 1 := congrArg Cpu.pc hcpu
        _ = c.pc + 2 + 1 := by rw [hlow, hhigh, Word.ofBytes_high_low]
        _ = c.pc + 3 := BitVec.add_assoc ..
  | nmi | irq | brk =>
      have hstatus := hpull (j := 1) (k := 2) rfl rfl
      have hlow := hpull (j := 2) (k := 1) rfl rfl
      have hhigh := hpull (j := 3) (k := 0) rfl rfl
      refine ⟨⟨n, hresult⟩, (congrArg Cpu.sp hcpu).trans hback, hbus, nofun, ?_, ?_⟩
      · rintro _ ⟨⟩
        refine (congrArg Cpu.pc hcpu).trans ?_
        exact (congr (congrArg Word.ofBytes hhigh) hlow).trans (Word.ofBytes_high_low _)
      · rintro _ ⟨⟩
        refine (congrArg Cpu.flags hcpu).trans ?_
        refine (congrArg Flags.pulled hstatus).trans ?_
        first
          | exact (pulled_pushed c.flags).1
          | exact (pulled_pushed c.flags).2

/-! ### The invariant -/

namespace Trail

/-- The stack pointer is as it was, and so are all cells of page one but the `n` from it downwards. -/
structure Keeps (n : Nat) (t t' : Trail FullMemory) : Prop where
  sp : t'.cpu.sp = t.cpu.sp
  memory : ∀ k, n ≤ k → k < 256 →
    t'.bus.busRead (.cellBelow t.cpu.sp k) = t.bus.busRead (.cellBelow t.cpu.sp k)

section
variable {n n' : Nat} {t t' t'' : Trail FullMemory}

theorem Spares.keeps (h : t.Spares t') : Keeps 0 t t' := ⟨h.sp, fun _ _ _ => h.memory _⟩

theorem Keeps.trans (h : Keeps n t t') (h' : Keeps n' t' t'') : Keeps (max n n') t t'' := by
  refine ⟨h'.sp.trans h.sp, fun k hk hk256 => ?_⟩
  have hsecond := h'.memory k (by omega) hk256
  rw [h.sp] at hsecond
  exact hsecond.trans (h.memory k (by omega) hk256)

end

section
variable {n : Nat} {b : Bracket} {t t' : Trail FullMemory} (hopens : t.CanOpen b)
  (hinner : Keeps n (t.call b.opener) t')
include hopens hinner

/-- The bytes of an open bracket stay where they are. -/
theorem Keeps.found (hn : b.size + n ≤ 256) {k : Nat} {d : Byte}
    (hd : (b.bytes t.cpu)[k]? = some d) : t'.bus.busRead (.cellBelow t.cpu.sp k) = d := by
  obtain ⟨-, hsp, hbus⟩ := opened hopens
  have hlength := b.length_bytes t.cpu
  have hk : k < b.size := hlength ▸ (List.getElem?_eq_some_iff.mp hd).1
  -- from the new stack pointer downwards, the bytes are the last cells of the page
  have hcell : Word.cellBelow t.cpu.sp k =
      .cellBelow (t.call b.opener).cpu.sp (256 - b.size + k) := by
    rw [hsp, Word.cellBelow_sub, ← Word.cellBelow_add_256]
    congr 1
    omega
  rw [hcell, hinner.memory _ (by omega) (by omega), ← hcell, hbus]
  exact Memory.busRead_pushed (by omega) hd

theorem Keeps.outside (hn : b.size + n ≤ 256) {k : Nat} (hk : b.size + n ≤ k) (hk256 : k < 256) :
    t'.bus.busRead (.cellBelow t.cpu.sp k) = t.bus.busRead (.cellBelow t.cpu.sp k) := by
  obtain ⟨-, hsp, hbus⟩ := opened hopens
  have hlength := b.length_bytes t.cpu
  have hcell : Word.cellBelow t.cpu.sp k =
      .cellBelow (t.call b.opener).cpu.sp (k - b.size) := by
    rw [hsp, Word.cellBelow_sub]
    congr 1
    omega
  rw [hcell, hinner.memory _ (by omega) (by omega), ← hcell, hbus]
  exact Memory.busRead_pushed_of_notMem (cellBelow_notMem_stackCells (by omega) hk256)

/-- A bracket finds its bytes and closes. -/
theorem Keeps.closes (hn : b.size + n ≤ 256) (hcloses : t'.Reaches b.closer) :
    b.Closes t.cpu t' := by
  obtain ⟨-, hsp, -⟩ := opened hopens
  exact closed hcloses (hinner.sp.trans hsp) fun k d hd => hinner.found hopens hn hd

end

variable {n : Nat} {t t' : Trail FullMemory} {rs : List Round}

/-- **A nesting keeps what is on the stack.** -/
theorem Nesting.keeps (h : Nesting n t rs t') (hn : n ≤ 256) : Keeps n t t' := by
  induction h with
  | idle h => exact h.keeps
  | append _ _ ih ih' => exact (ih (by omega)).trans (ih' (by omega))
  | enclose b hopens _ hcloses ih =>
      have hinner := ih (by omega)
      have hclosed := hinner.closes hopens hn hcloses
      refine ⟨hclosed.sp, fun k hk hk256 => ?_⟩
      rw [hclosed.bus]
      exact hinner.outside hopens hn hk hk256

theorem restores_of_keeps {n : Nat} {r : Round} (hopens : r.start.CanOpen r.bracket)
    (hinner : Keeps n r.opened r.finish) (hn : r.bracket.size + n ≤ 256)
    (hcloses : r.finish.Reaches r.bracket.closer) : r.Restores := by
  obtain ⟨hopened, -, hbus⟩ := opened hopens
  have hpushed {k : Nat} {d : Byte} (hd : (r.bracket.bytes r.start.cpu)[k]? = some d) :
      r.opened.bus.busRead (.cellBelow r.start.cpu.sp k) = d := by
    have hlength := r.bracket.length_bytes r.start.cpu
    rw [Round.opened, hbus]
    exact Memory.busRead_pushed (by omega) hd
  refine ⟨hopened, hinner.closes hopens hn hcloses, fun hb => ?_, fun brk hb => ?_⟩
  · rw [← Word.cellBelow_zero]
    apply hpushed
    rw [hb]
    rfl
  · rw [hpushed (Bracket.getElem?_status hb _), Flags.ofByte_toByte]

/-- **Brackets on the stack restore what they have put there**, in any number and to any depth, as
long as they have no more bytes there than it has cells. -/
theorem nesting_restores (h : Nesting n t rs t') (hn : n ≤ 256) :
    t'.cpu.sp = t.cpu.sp ∧ ∀ r ∈ rs, r.Restores := by
  refine ⟨(h.keeps hn).sp, ?_⟩
  induction h with
  | idle _ => simp
  | append _ _ ih ih' =>
      intro r hr
      rcases List.mem_append.mp hr with hr | hr
      · exact ih (by omega) r hr
      · exact ih' (by omega) r hr
  | enclose b hopens inner hcloses ih =>
      intro r hr
      rcases List.mem_cons.mp hr with rfl | hr
      · exact restores_of_keeps hopens (inner.keeps (by omega)) hn hcloses
      · exact ih (by omega) r hr

/-- There are such trails: here a subroutine changes the accumulator and restores it, and its way
back is on both ends of the page. -/
theorem nesting_restores_subroutine :
    ∃ t t' rs, Nesting 3 t rs t' ∧ t.cpu.sp = 0 ∧
      rs.map (·.bracket) = [.subroutine, .accumulator] ∧
      t'.cpu.sp = t.cpu.sp ∧ ∀ r ∈ rs, r.Restores := by
  obtain ⟨m, hjsr, hlo, hhi, hpha, hlda, hpla, hrts⟩ : ∃ m : FullMemory,
      m.busRead 0 = 0x20 ∧ m.busRead 1 = 0 ∧ m.busRead 2 = 2 ∧ m.busRead 0x200 = 0x48 ∧
        m.busRead 0x201 = 0xA9 ∧ m.busRead 0x203 = 0x68 ∧ m.busRead 0x204 = 0x60 := by
    refine ⟨.ofFn fun i => if i = 0 then 0x20 else if i = 1 then 0 else if i = 2 then 2
      else if i = 0x200 then 0x48 else if i = 0x201 then 0xA9 else if i = 0x203 then 0x68
      else 0x60, ?_⟩
    simp only [Memory.busRead_ofFn]
    decide
  obtain ⟨t, hsp, hpc, rfl⟩ : ∃ t : Trail FullMemory, t.cpu.sp = 0 ∧ t.cpu.pc = 0 ∧ t.bus = m :=
    ⟨⟨{}, m, []⟩, rfl, rfl, rfl⟩
  let t₁ := t.call .step
  let t₂ := t₁.call .step
  let t₃ := t₂.call .step
  let t₄ := t₃.call .step
  have hd : Instruction.decode (t.bus.busRead t.cpu.pc) = some ⟨.jsr, .absolute, true⟩ := by
    rw [hpc, hjsr]
    decide
  have hpc₁ : t₁.cpu.pc = 0x200 := by
    obtain ⟨n, -, hcpu, -⟩ := call_step hd (not_halt_of_decode hd (by decide))
    refine (congrArg Cpu.pc hcpu).trans ?_
    show Word.ofBytes (t.bus.busRead (t.cpu.pc + 2)) (t.bus.busRead (t.cpu.pc + 1)) = _
    rw [hpc, show (0 : Word) + 1 = 1 from rfl, show (0 : Word) + 2 = 2 from rfl, hlo, hhi]
    rfl
  have hbus₁ := busRead_call_step hd (by decide) fun _ ha => high_of_mem_stackCells ha
  have hd₁ : Instruction.decode (t₁.bus.busRead t₁.cpu.pc) = some ⟨.pha, .implied, true⟩ := by
    rw [hpc₁, hbus₁ _ (by decide), hpha]
    decide
  have hpc₂ : t₂.cpu.pc = 0x201 := pc_call_step hd₁ (by decide) (by decide) hpc₁
  have hbus₂ := busRead_call_step hd₁ (by decide) fun _ ha => high_of_mem_stackCells ha
  have hd₂ : Instruction.decode (t₂.bus.busRead t₂.cpu.pc) = some ⟨.lda, .immediate, true⟩ := by
    rw [hpc₂, hbus₂ _ (by decide), hbus₁ _ (by decide), hlda]
    decide
  have hpc₃ : t₃.cpu.pc = 0x203 := pc_call_step hd₂ (by decide) (by decide) hpc₂
  have hbus₃ := busRead_call_step hd₂ (by decide) nofun
  have hd₃ : Instruction.decode (t₃.bus.busRead t₃.cpu.pc) = some ⟨.pla, .implied, true⟩ := by
    rw [hpc₃, hbus₃ _ (by decide), hbus₂ _ (by decide), hbus₁ _ (by decide), hpla]
    decide
  have hpc₄ : t₄.cpu.pc = 0x204 := pc_call_step hd₃ (by decide) (by decide) hpc₃
  have hbus₄ := busRead_call_step hd₃ (by decide) nofun
  have hd₄ : Instruction.decode (t₄.bus.busRead t₄.cpu.pc) = some ⟨.rts, .implied, true⟩ := by
    rw [hpc₄, hbus₄ _ (by decide), hbus₃ _ (by decide), hbus₂ _ (by decide), hbus₁ _ (by decide),
      hrts]
    decide
  have hspares : t₂.Spares t₃ :=
    spares_step hd₂ (not_halt_of_decode hd₂ (by decide)) (by decide) nofun
  have hnesting : Nesting 3 t _ (t₄.call .step) :=
    .enclose .subroutine ⟨_, hd, rfl⟩
      (.enclose .accumulator ⟨_, hd₁, rfl⟩ (.idle hspares) ⟨_, hd₃, rfl⟩) ⟨_, hd₄, rfl⟩
  exact ⟨t, _, _, hnesting, hsp, rfl, nesting_restores hnesting (by decide)⟩

end Trail

end Famicom.Cpu
