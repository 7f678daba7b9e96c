import Mathlib.Control.Monad.Basic
import Famicom.Proofs.Clockwork
import Famicom.Proofs.Cpu.Dispatch
import Famicom.Proofs.Cpu.EffectiveAddress
import Famicom.Proofs.Cpu.Fetched
import Famicom.Proofs.Cpu.Timeless
import Famicom.Proofs.Ppu.Access

/-! # What an instruction does to the picture unit

The registers of the picture unit answer back: reading one may change it.  So it matters which
accesses an instruction makes, and not only what comes of them.  `Mnemonic.registerUses` lists them
for each mnemonic, given the register at the effective address: a load reads it once, a store writes
it once, a change does first the one and then the other, and all else leaves it alone.
`Cpu.registerUses_of_step` says that an instruction does just this, and that without a register at
its effective address it does nothing to the picture unit.

The proof has two parts.  What an activity without fetches does to the picture unit is the sequence
of its accesses at registers (`Activity.ppu_run`), and the operations are gone through for what they
access: most of them cells only, whatever they are answered (`Operation.asksCells_perform`). -/

namespace Famicom

open Board (registerAddress?)

/-- The use of a register of the picture unit that an access is, if it is one.  To fetch an
instruction byte does not count. -/
def Access.registerUse? : Access → Option Ppu.Use
  | fetch _ _ => none
  | read a _ => (registerAddress? a).map .read
  | write a d => (registerAddress? a).map (.write · d.toNat)

theorem Access.registerUse?_of_isPlain {x : Access} (h : x.IsPlain) : x.registerUse? = none := by
  cases x with
  | fetch a d => rfl
  | read a d | write a d =>
      have ha : registerAddress? a = none := Board.registerAddress?_of_isCell h
      rw [registerUse?, ha]
      rfl

theorem Access.filterMap_registerUse? {xs : List Access} (h : ∀ x ∈ xs, x.IsPlain) :
    xs.filterMap Access.registerUse? = [] := by
  rw [List.filterMap_eq_nil_iff]
  intro x hx
  exact registerUse?_of_isPlain (h x hx)

/-- The uses of registers among the accesses, in order. -/
def Outcome.registerUses {α β : Type} (o : Outcome α β) : List Ppu.Use :=
  o.accesses.filterMap Access.registerUse?

/-! ### The picture unit follows the accesses -/

/-- The unit after an access of the processor. -/
def Ppu.afterAccess (p : Ppu) (x : Access) : Ppu :=
  match x.registerUse? with
  | none => p
  | some u => p.after u

namespace Board

section
variable (b : Board) (a : Word) (d : Byte)

theorem ppu_read_eq : (b.read (decode a)).2.ppu = b.ppu.afterAccess (.read a d) := by
  rw [Ppu.afterAccess, Access.registerUse?]
  rcases isCell_or_register a with hcell | ⟨r, hr⟩
  · rw [registerAddress?_of_isCell hcell, b.read_of_isCell hcell]
    rfl
  · rw [registerAddress?_of_register hr, hr]
    exact (b.ppu.snd_readAt_toInt r).symm

theorem ppu_write_eq : (b.write (decode a) d).ppu = b.ppu.afterAccess (.write a d) := by
  rw [Ppu.afterAccess, Access.registerUse?]
  rcases isCell_or_register a with hcell | ⟨r, hr⟩
  · rw [registerAddress?_of_isCell hcell, b.ppu_write_of_isCell d hcell]
    rfl
  · have hd : BitVec.ofInt 8 (d.toNat : Int) = d := by simp
    have hwrite := b.ppu.snd_writeAt_toInt r d.toNat
    rw [hd] at hwrite
    rw [registerAddress?_of_register hr, hr]
    exact hwrite.symm

end

/-- On an indulgent board a register yields what its address shows. -/
theorem readAt_of_registerAddress {b : Board} (hb : b.Indulgent) {a : Word} {n : Int}
    (h : registerAddress? a = some n) : (b.ppu.readAt n).1 = .ok (b.shown a) := by
  rcases isCell_or_register a with hcell | ⟨r, hr⟩
  · rw [registerAddress?_of_isCell hcell] at h
    cases h
  · rw [registerAddress?_of_register hr] at h
    cases h
    have hread := b.ppu.fst_readAt_toInt (b.ppu.readFault?_of_indulgent hb r)
    rw [hread, shown, hr]
    rfl

end Board

theorem Outcome.foldl_registerUses_after {α β : Type} (o : Outcome α β) (x : Access) (p : Ppu) :
    (o.after x).registerUses.foldl Ppu.after p =
      o.registerUses.foldl Ppu.after (p.afterAccess x) := by
  show (List.filterMap Access.registerUse? (x :: o.accesses)).foldl Ppu.after p = _
  rw [List.filterMap_cons, Ppu.afterAccess]
  cases x.registerUse? <;> rfl

namespace Activity

variable {α : Type} {t : Activity α} {b : Board}

/-- **What an activity without fetches does to the picture unit**: the uses of its registers, one
after the other. -/
theorem ppu_run (h : (t.run b).fetched = []) :
    (t.run b).bus.ppu = (t.run b).registerUses.foldl Ppu.after b.ppu := by
  induction t generalizing b with
  | done c a => rfl
  | fail c fault => rfl
  | fetch c next ih =>
      unfold run at h ⊢
      split at h
      · rfl
      · rw [Outcome.fetched_after_fetch] at h
        cases h
  | read c a next ih =>
      unfold run at h ⊢
      split at h
      · rfl
      · rw [Outcome.foldl_registerUses_after, ← Board.ppu_read_eq]
        exact ih _ h
  | write c a d next ih =>
      unfold run at h ⊢
      split at h
      · rfl
      · rw [Outcome.foldl_registerUses_after, ← Board.ppu_write_eq]
        exact ih () h

/-- What is asked for is a cell. -/
def Stop.AsksCell : Stop → Prop
  | failed _ => True
  | unread a | unwritten a => (Board.decode a).IsCell

/-- An activity that asks for cells only, whatever it is answered, has no other accesses. -/
theorem Holds.isPlain {post : Cpu → α → Prop} (h : t.Holds (fun _ s => s.AsksCell) post) :
    ∀ x ∈ (t.run b).accesses, x.IsPlain := by
  induction t generalizing b with
  | done c a => simp [run]
  | fail c fault => simp [run]
  | fetch c next ih =>
      unfold run
      split
      · simp
      · exact List.forall_mem_cons.mpr ⟨trivial, ih _ (h.2 _)⟩
  | read c a next ih =>
      unfold run
      split
      · simp
      · exact List.forall_mem_cons.mpr ⟨h.1, ih _ (h.2 _)⟩
  | write c a d next ih =>
      unfold run
      split
      · simp
      · exact List.forall_mem_cons.mpr ⟨h.1, ih () h.2⟩

end Activity

/-! ### Operations -/

namespace Program

variable {b : Board} (cpu : Cpu) (a : Word)

theorem run_read_of_indulgent (hb : b.Indulgent) :
    (read a).run cpu b =
      ⟨.ok (b.shown a), cpu, (b.read (Board.decode a)).2, [.read a (b.shown a)]⟩ := by
  have hf : Bus.readFault? b a = none := Board.readFault?_of_indulgent hb _
  show Activity.run (.read cpu a _) b = _
  rw [Activity.run, hf]
  rfl

theorem run_write_of_indulgent (hb : b.Indulgent) (d : Byte) :
    (write a d).run cpu b = ⟨.ok (), cpu, b.write (Board.decode a) d, [.write a d]⟩ := by
  have hf : Bus.writeFault? b a = none := Board.writeFault?_of_indulgent hb _
  show Activity.run (.write cpu a d _) b = _
  rw [Activity.run, hf]
  rfl

end Program

namespace Operation

open Program

/-- The operation looks at its operand or stores it. -/
def UsesOperand : Operation → Prop
  | load _ | store _ | alter _ _ | branch _ => True
  | skip | internal _ | push _ | pull _ | jump | call | returnFromCall | returnFromInterrupt
  | softwareInterrupt => False

/-- The uses of the register at address `a` by an operation that begins in the given state; `d` is
what a read of the register yields. -/
def registerUses (cpu : Cpu) (a : Int) (d : Byte) : Operation → List Ppu.Use
  | load _ => [.read a]
  | store value => [.write a (value cpu).toNat]
  | alter change _ => [.read a, .write a (change d cpu.flags).1.toNat]
  | skip | internal _ | branch _ | push _ | pull _ | jump | call | returnFromCall
  | returnFromInterrupt | softwareInterrupt => []

/-- All but the operand is in page zero, on the stack or at a vector. -/
theorem asksCells_perform (op : Operation) (o : Operand) (cpu : Cpu)
    (h : op.UsesOperand → ∀ e, o.address? = some e → (Board.decode e).IsCell) :
    (op.perform o cpu).Holds (fun _ s => s.AsksCell) fun _ _ => True := by
  have hload : op.UsesOperand → (o.load cpu).Holds (fun _ s => s.AsksCell) fun _ _ => True := by
    intro hop
    cases o with
    | cell e crossed => exact ⟨h hop e rfl, fun _ => trivial⟩
    | none | accumulator | value b => trivial
  have hstore : op.UsesOperand → ∀ d c,
      (o.store d c).Holds (fun _ s => s.AsksCell) fun _ _ => True := by
    intro hop d c
    cases o with
    | cell e crossed => exact ⟨h hop e rfl, trivial⟩
    | none | accumulator | value b => trivial
  cases op with
  | load effect =>
      rw [perform, holds_bind]
      exact (hload trivial).mono (fun _ _ hs => hs) fun _ _ _ => trivial
  | store value =>
      rw [perform, holds_bind, holds_get, holds_bind]
      exact (hstore trivial _ cpu).mono (fun _ _ hs => hs) fun _ _ _ => trivial
  | alter change effect =>
      rw [perform, holds_bind]
      refine (hload trivial).mono (fun _ _ hs => hs) fun c d _ => ?_
      rw [holds_bind, holds_get]
      dsimp only
      rw [holds_bind, holds_set, holds_bind]
      exact (hstore trivial _ _).mono (fun _ _ hs => hs) fun _ _ _ => trivial
  | branch taken =>
      rw [perform, holds_bind]
      refine (hload trivial).mono (fun _ _ hs => hs) fun c distance _ => ?_
      rw [holds_bind, holds_get]
      split <;> trivial
  | skip | internal effect | jump => trivial
  | push value | pull effect | call | returnFromCall | returnFromInterrupt =>
      simp [perform, Program.push, Program.pull, pushWord, pullWord, jumpTo, Activity.Stop.AsksCell,
        Board.isCell_stackCell]
  | softwareInterrupt =>
      have hlow : (Board.decode Cpu.irqVector).IsCell := trivial
      have hhigh : (Board.decode (Cpu.irqVector + 1#16)).IsCell := trivial
      simp [perform, enterHandler, Program.push, pushWord, readWord, jumpTo, Activity.Stop.AsksCell,
        Board.isCell_stackCell, hlow, hhigh]

/-- No operation fetches. -/
theorem fetched_perform {op : Operation} {o : Operand} {cpu : Cpu} {b : Board} {n : Nat}
    (h : ((op.perform o).run cpu b).result = .ok n) : ((op.perform o).run cpu b).fetched = [] := by
  have hall : (op.perform o cpu).FetchesAll 0 0 := op.fetchesAll_perform o
  exact List.eq_nil_of_length_eq_zero (hall.length_of_ok h)

section
variable (op : Operation) {o : Operand} {b : Board} (cpu : Cpu)

/-- An operation without a register as its operand uses none. -/
theorem registerUses_eq_nil (h : op.UsesOperand → o.address?.bind registerAddress? = none) :
    ((op.perform o).run cpu b).registerUses = [] := by
  have hcells : (op.perform o cpu).Holds (fun _ s => s.AsksCell) fun _ _ => True := by
    apply op.asksCells_perform o cpu
    intro hop e he
    have hnone := h hop
    rw [he] at hnone
    exact Board.registerAddress?_eq_none_iff.mp hnone
  exact Access.filterMap_registerUse? hcells.isPlain

/-- An operation whose operand is a register uses it in its own way. -/
theorem registerUses_eq (hb : b.Indulgent) {e : Word} {crossed : Bool} {a : Int}
    (ha : registerAddress? e = some a) (hop : ∀ taken, op ≠ branch taken) :
    ((op.perform (.cell e crossed)).run cpu b).registerUses =
      op.registerUses cpu a (b.shown e) := by
  have hread : ∀ d, (Access.read e d).registerUse? = some (.read a) := by
    simp [Access.registerUse?, ha]
  have hwrite : ∀ d, (Access.write e d).registerUse? = some (.write a d.toNat) := by
    simp [Access.registerUse?, ha]
  cases op with
  | load effect =>
      simp [perform, Operand.load, run_read_of_indulgent _ _ hb, Outcome.andThen,
        Outcome.registerUses, hread, registerUses]
  | store value =>
      simp [perform, Operand.store, run_write_of_indulgent _ _ hb, Outcome.andThen,
        Outcome.registerUses, hwrite, registerUses]
  | alter change effect =>
      have hb' : (b.read (Board.decode e)).2.Indulgent :=
        hb.of_clockwork (b.clockwork_read _)
      simp [perform, Operand.load, Operand.store, run_read_of_indulgent _ _ hb,
        run_write_of_indulgent _ _ hb', Outcome.andThen, Outcome.registerUses, hread, hwrite,
        registerUses]
  | branch taken => exact absurd rfl (hop taken)
  | skip | internal _ | push _ | pull _ | jump | call | returnFromCall | returnFromInterrupt
  | softwareInterrupt => exact registerUses_eq_nil _ cpu fun h => h.elim

/-- A load goes on with the byte that it has read. -/
theorem cpu_run_load (effect : Byte → Cpu → Cpu) (hb : b.Indulgent) (e : Word) (crossed : Bool) :
    (((load effect).perform (.cell e crossed)).run cpu b).cpu = effect (b.shown e) cpu := by
  simp [perform, Operand.load, run_read_of_indulgent _ _ hb, Outcome.andThen]

end

end Operation

/-! ### Mnemonics -/

namespace Mnemonic

/-- The uses of the register at address `a` by an instruction that begins in the given state; `d` is
what a read of the register yields. -/
def registerUses (start : Cpu) (a : Int) (d : Byte) : Mnemonic → List Ppu.Use :=
  let stored (value : Byte) : List Ppu.Use := [.write a value.toNat]
  let changed (result : Byte) : List Ppu.Use := [.read a, .write a result.toNat]
  let carry : Byte := if start.flags.carry then 1 else 0
  fun
  | lda | ldx | ldy | lax | adc | sbc | and | ora | eor | cmp | cpx | cpy | bit => [.read a]
  | sta => stored start.a
  | stx => stored start.x
  | sty => stored start.y
  | aax => stored (start.a &&& start.x)
  | asl | slo => changed (d <<< 1)
  | lsr | sre => changed (d >>> 1)
  | rol | rla => changed (d <<< 1 ||| carry)
  | ror | rra => changed (d >>> 1 ||| carry <<< 7)
  | inc | isc => changed (d + 1)
  | dec | dcp => changed (d - 1)
  | skb | skw | nop | jmp | jsr | bcc | bcs | beq | bmi | bne | bpl | brk | bvc | bvs | clc | cld
  | cli | clv | dex | dey | inx | iny | pha | php | pla | plp | rti | rts | sec | sed | sei | tax
  | tay | tsx | txa | txs | tya => []

theorem registerUses_eq (m : Mnemonic) (start : Cpu) (pc : Word) (a : Int) (d : Byte) :
    m.operation.registerUses { start with pc } a d = m.registerUses start a d := by
  have hleft : ∀ d : Byte, BitVec.ofNat 8 (d.toNat * 2) = d <<< 1 := by decide +kernel
  have hright : ∀ d : Byte, BitVec.ofNat 8 (d.toNat / 2) = d >>> 1 := by decide +kernel
  have hrotateLeft : ∀ (d : Byte) (c : Bool), BitVec.ofNat 8 (d.toNat * 2 + c.toNat) =
      d <<< 1 ||| if c then 1 else 0 := by
    decide +kernel
  have hrotateRight : ∀ (d : Byte) (c : Bool), BitVec.ofNat 8 (d.toNat / 2 + c.toNat * 128) =
      d >>> 1 ||| (if c then 1 else 0 : Byte) <<< 7 := by
    decide +kernel
  let changed (result : Byte) : List Ppu.Use := [.read a, .write a result.toNat]
  cases m with
  | asl | slo => exact congrArg changed (hleft d)
  | lsr | sre => exact congrArg changed (hright d)
  | rol | rla => exact congrArg changed (hrotateLeft d _)
  | ror | rra => exact congrArg changed (hrotateRight d _)
  | _ => rfl

/-- An instruction whose operand is a register of an indulgent board uses it as the mnemonic tells,
and if it is a load, it goes on with what the register yields. -/
theorem registerUses_perform (m : Mnemonic) {o : Operand} {start : Cpu} {pc : Word} {b : Board}
    (hb : b.Indulgent) {a : Int} (ho : o.address?.bind registerAddress? = some a)
    (hm : ∀ taken, m.operation ≠ .branch taken) :
    let p := (m.operation.perform o).run { start with pc } b
    ∃ d, (b.ppu.readAt a).1 = .ok d ∧ p.registerUses = m.registerUses start a d ∧
      ∀ effect, m.operation = .load effect → p.cpu = effect d { start with pc } := by
  intro p
  obtain ⟨e, he, ha⟩ := Option.bind_eq_some_iff.mp ho
  cases o with
  | none | accumulator | value d => cases he
  | cell e' crossed =>
      cases he
      refine ⟨b.shown e, Board.readAt_of_registerAddress hb ha, ?_, ?_⟩
      · rw [Operation.registerUses_eq _ _ hb ha hm, registerUses_eq]
      · intro effect heffect
        show ((m.operation.perform _).run _ b).cpu = _
        rw [heffect, Operation.cpu_run_load _ _ hb]

end Mnemonic

/-! ### Instructions -/

/-- A branch has a distance as its operand, and no other jump than `jmp` is indirect. -/
theorem Instruction.mode_of_decode {opcode : Byte} {i : Instruction}
    (h : Instruction.decode opcode = some i) :
    ((∃ taken, i.mnemonic.operation = .branch taken) → i.mode = .relative) ∧
      (i.mode = .indirect → i.mnemonic = .jmp) := by
  have hi : (i.mnemonic ∈ [.bcc, .bcs, .beq, .bmi, .bne, .bpl, .bvc, .bvs] →
      i.mode = .relative) ∧ (i.mode = .indirect → i.mnemonic = .jmp) := by
    refine of_decode (P := fun i =>
      (i.mnemonic ∈ [.bcc, .bcs, .beq, .bmi, .bne, .bpl, .bvc, .bvs] → i.mode = .relative) ∧
        (i.mode = .indirect → i.mnemonic = .jmp)) ?_ h
    decide +kernel
  refine ⟨fun ⟨taken, hbranch⟩ => hi.1 ?_, hi.2⟩
  revert hbranch
  cases i.mnemonic <;> simp [Mnemonic.operation]

namespace Cpu

open Program

/-- An instruction that is completed has found its operand and carried its operation out on it. -/
theorem run_execute_of_ok {β : Type} [Bus β] {i : Instruction} {cpu cpu' : Cpu} {bus bus' : β}
    {o : Operand} {xs : List Access} (hrun : i.mode.operand.run cpu bus = ⟨.ok o, cpu', bus', xs⟩)
    {n : Nat} (h : ((execute i).run cpu bus).result = .ok n) :
    let p := (i.mnemonic.operation.perform o).run cpu' bus'
    (∃ branch, p.result = .ok branch) ∧
      (execute i).run cpu bus = ⟨.ok n, p.cpu.later n, p.bus, xs ++ p.accesses⟩ := by
  intro p
  have hexecute : (execute i).run cpu bus =
      let q := p.andThen fun c branch b =>
        ⟨.ok (cyclesOf i o branch), c.later (cyclesOf i o branch), b, []⟩
      { q with accesses := xs ++ q.accesses } := by
    have hrest := run_bind cpu' bus' (i.mnemonic.operation.perform o) fun branch => do
      spend (cyclesOf i o branch)
      return cyclesOf i o branch
    rw [execute, run_bind, hrun]
    simp only [Outcome.andThen] at hrest ⊢
    rw [hrest]
    rfl
  rw [hexecute] at h ⊢
  generalize p = q at h ⊢
  obtain ⟨_ | branch, c, b, ys⟩ := q
  · cases h
  · cases h
    refine ⟨⟨branch, rfl⟩, ?_⟩
    simp [Outcome.andThen]

section
variable {cpu : Cpu} {b : Board} {i : Instruction} {result : Option Nat}

/-- **The parts of an instruction** whose bytes are at quiet addresses: its operand is found without
a trace, and the picture unit sees what its operation does. -/
theorem step_parts (hd : Instruction.decode (b.shown cpu.pc) = some i)
    (hgo : ¬ (b.shown cpu.pc = 0 ∧ cpu.breakHalts)) (hm : i.mode ≠ .indirect)
    (hq : i.mode.BytesQuiet cpu) (h : (step.run cpu b).result = .ok result) :
    ∃ o n, o.address? = i.mode.effectiveAddress? cpu b.shown ∧ result = some n ∧
      let p := (i.mnemonic.operation.perform o).run
        { cpu with pc := cpu.pc + BitVec.ofNat 16 i.mode.instructionSize } b
      (step.run cpu b).cpu = p.cpu.later n ∧ (step.run cpu b).registerUses = p.registerUses ∧
        (step.run cpu b).bus.ppu = p.registerUses.foldl Ppu.after b.ppu := by
  have hpc : Board.Quiet cpu.pc := by
    have h₀ := hq 0 i.mode.one_le_instructionSize
    rwa [BitVec.add_zero] at h₀
  obtain ⟨hf, hr⟩ := b.bus_read_of_quiet hpc
  obtain ⟨o, xs, hrun, haddress, hxs⟩ := i.mode.run_operand hm hq b
  have hstep : step.run cpu b = ((some <$> execute i).run { cpu with pc := cpu.pc + 1 } b).after
      (.fetch cpu.pc (b.shown cpu.pc)) := by
    rw [step_run_of_fetched hf, hr, dispatch_of_known hd hgo]
  rw [hstep, run_map] at h ⊢
  cases hresult : ((execute i).run { cpu with pc := cpu.pc + 1 } b).result with
  | error fault =>
      rw [hresult] at h
      cases h
  | ok n =>
      rw [hresult] at h
      cases h
      obtain ⟨⟨branch, hbranch⟩, hexecute⟩ := run_execute_of_ok hrun hresult
      have hppu := Activity.ppu_run (Operation.fetched_perform hbranch)
      rw [hexecute]
      refine ⟨o, n, haddress, rfl, rfl, ?_, hppu⟩
      show (xs ++ _).filterMap Access.registerUse? = _
      rw [List.filterMap_append, Access.filterMap_registerUse? hxs, List.nil_append]
      rfl

/-- A step that is completed has found an instruction, whatever the board shows. -/
theorem exists_decode_of_ok (h : (step.run cpu b).result = .ok result) :
    ∃ i, Instruction.decode (b.shown cpu.pc) = some i := by
  cases hf : Bus.readFault? b cpu.pc with
  | some fault =>
      rw [step_run_of_fault hf] at h
      cases h
  | none =>
      rw [step_run_of_fetched hf] at h
      cases hd : Instruction.decode (b.shown cpu.pc) with
      | some i => exact ⟨i, rfl⟩
      | none =>
          have hdispatch : dispatch cpu (Bus.read b cpu.pc).1 = _ := dispatch_of_unknown hd
          rw [hdispatch] at h
          cases h

end

/-- **An instruction uses its own register and no other.**  Take any step on an indulgent board
which is completed and whose instruction bytes are at quiet addresses, an indirect jump apart.  If
a register of the picture unit is at the effective address of the instruction, the step uses it as
the mnemonic tells and the picture unit is left as after these uses; what a load goes on with is the
byte that the register yields.  If there is none, no register is used and the picture unit is
unchanged. -/
theorem registerUses_of_step (cpu : Cpu) (b : Board) (hb : b.ppu.strict = false)
    {result : Option Nat} (h : (step.run cpu b).result = .ok result) :
    ∃ i, Instruction.decode (b.shown cpu.pc) = some i ∧
      (i.mode.BytesQuiet cpu → ¬ (i.mnemonic = .jmp ∧ i.mode = .indirect) →
        let o := step.run cpu b
        match (i.mode.effectiveAddress? cpu b.shown).bind registerAddress? with
        | none => o.registerUses = [] ∧ o.bus.ppu = b.ppu
        | some a => ∃ d, (b.ppu.readAt a).1 = .ok d ∧
            o.registerUses = i.mnemonic.registerUses cpu a d ∧
            o.bus.ppu = (i.mnemonic.registerUses cpu a d).foldl Ppu.after b.ppu ∧
            ∀ effect, i.mnemonic.operation = .load effect → ∃ n, result = some n ∧
              o.cpu = (effect d
                { cpu with pc := cpu.pc + BitVec.ofNat 16 i.mode.instructionSize }).later n) := by
  obtain ⟨i, hd⟩ := exists_decode_of_ok h
  refine ⟨i, hd, fun hq hindirect => ?_⟩
  obtain ⟨hbranch, hjump⟩ := Instruction.mode_of_decode hd
  have hm : i.mode ≠ .indirect := fun hm => hindirect ⟨hjump hm, hm⟩
  by_cases hgo : b.shown cpu.pc = 0 ∧ cpu.breakHalts
  · -- the break instruction has no effective address, and nothing but its opcode is fetched
    have hi : i = ⟨.brk, .implied, true⟩ := by
      rw [hgo.1, decode_zero] at hd
      exact (Option.some.inj hd).symm
    subst hi
    obtain ⟨hf, hr⟩ := b.bus_read_of_quiet (by simpa using hq 0 (by decide))
    rw [step_run_of_fetched hf, hr, dispatch_of_halt hgo]
    exact ⟨rfl, rfl⟩
  obtain ⟨o, n, haddress, rfl, hcpu, huses, hppu⟩ := step_parts hd hgo hm hq h
  dsimp only
  rw [hcpu, huses, hppu, ← haddress]
  cases ho : o.address?.bind registerAddress? with
  | none =>
      have hnil := i.mnemonic.operation.registerUses_eq_nil (b := b)
        { cpu with pc := cpu.pc + BitVec.ofNat 16 i.mode.instructionSize } fun _ => ho
      rw [hnil]
      exact ⟨rfl, rfl⟩
  | some a =>
      have hop : ∀ taken, i.mnemonic.operation ≠ .branch taken := by
        intro taken htaken
        rw [haddress, hbranch ⟨taken, htaken⟩] at ho
        cases ho
      obtain ⟨d, hread, hperform, hload⟩ := i.mnemonic.registerUses_perform hb ho hop
      rw [hperform]
      refine ⟨d, hread, rfl, rfl, ?_⟩
      intro effect heffect
      rw [hload effect heffect]
      exact ⟨n, rfl, rfl⟩

/-- There are such steps: here a byte of video memory is counted up through the data register. -/
theorem registerUses_of_step_inc :
    let b : Board := { ram := (((Memory.zero _).set 0 0xEE).set 1 0x07).set 2 0x20 }
    b.ppu.strict = false ∧ (step.run {} b).result = .ok (some 6) ∧
      (step.run {} b).registerUses = [.read 0x2007, .write 0x2007 1] ∧
      (step.run {} b).bus.ppu = (b.ppu.after (.read 0x2007)).after (.write 0x2007 1) := by
  intro b
  have hresult : (step.run {} b).result = .ok (some 6) := by decide +kernel
  obtain ⟨i, hd, h⟩ := registerUses_of_step {} b rfl hresult
  have hi : Instruction.decode (b.shown 0) = some ⟨.inc, .absolute, true⟩ := by decide +kernel
  cases hi.symm.trans hd
  have haddress : (Mode.absolute.effectiveAddress? {} b.shown).bind registerAddress? =
      some 0x2007 := by decide +kernel
  have hquiet : ∀ k < 3, Board.Quiet (0 + BitVec.ofNat 16 k) := by decide
  have huses := h hquiet (by decide)
  rw [haddress] at huses
  obtain ⟨d, hread, huses, hppu, -⟩ := huses
  have hzero : (b.ppu.readAt 0x2007).1 = .ok 0 := by decide +kernel
  cases hzero.symm.trans hread
  exact ⟨rfl, hresult, huses, hppu⟩

end Cpu

end Famicom
