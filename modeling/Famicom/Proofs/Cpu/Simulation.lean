import Famicom.Proofs.Activity
import Famicom.Proofs.Cpu.Reduction

/-! # Both processors do the same

A routine of the processor on unbounded integers simulates a program of the processor on bytes and
words (`Simulates`) if from the same registers and on the same bus both end with the same result,
the same registers and the same bus, and the routine has handed nothing to the bus that is not in
range.  Simulation goes through composition (`Simulates.bind`), so that it is shown for one part of
the processor after the other: how operands are found, the operations, a step and an interrupt. -/

namespace Famicom.Unbounded

/-- The bus is handed an address that it has, and a byte. -/
def Request.InRange : Request → Prop
  | read address => 0 ≤ address ∧ address ≤ 0xFFFF
  | write address data => (0 ≤ address ∧ address ≤ 0xFFFF) ∧ 0 ≤ data ∧ data ≤ 0xFF

/-- The registers have values that fit them. -/
structure Registers.InRange (r : Registers) : Prop where
  a : 0 ≤ r.a ∧ r.a ≤ 0xFF
  x : 0 ≤ r.x ∧ r.x ≤ 0xFF
  y : 0 ≤ r.y ∧ r.y ≤ 0xFF
  sp : 0 ≤ r.sp ∧ r.sp ≤ 0xFF
  pc : 0 ≤ r.pc ∧ r.pc ≤ 0xFFFF
  flags : 0 ≤ r.flags ∧ r.flags ≤ 0xFF

theorem toNat_inRange (b : Byte) : 0 ≤ (b.toNat : Int) ∧ (b.toNat : Int) ≤ 0xFF := by
  have h := b.isLt
  omega

theorem toNat_inRange_word (w : Word) : 0 ≤ (w.toNat : Int) ∧ (w.toNat : Int) ≤ 0xFFFF := by
  have h := w.isLt
  omega

theorem registers_inRange (c : Cpu) : c.registers.InRange where
  a := toNat_inRange c.a
  x := toNat_inRange c.x
  y := toNat_inRange c.y
  sp := toNat_inRange c.sp
  pc := toNat_inRange_word c.pc
  flags := toNat_inRange c.flags.toByte

theorem toNat_ofInt_byte {n : Int} (h : 0 ≤ n ∧ n ≤ 0xFF) :
    ((BitVec.ofInt 8 n).toNat : Int) = n := by
  rw [BitVec.toNat_ofInt]
  omega

theorem toNat_ofInt_word {n : Int} (h : 0 ≤ n ∧ n ≤ 0xFFFF) :
    ((BitVec.ofInt 16 n).toNat : Int) = n := by
  rw [BitVec.toNat_ofInt]
  omega

/-- Registers in range are those of a processor on bytes and words. -/
theorem Registers.InRange.exists_cpu {r : Registers} (h : r.InRange) :
    ∃ c : Cpu, c.registers = r := by
  obtain ⟨ha, hx, hy, hsp, hpc, hflags⟩ := h
  refine ⟨⟨.ofInt 8 r.a, .ofInt 8 r.x, .ofInt 8 r.y, .ofInt 8 r.sp, .ofInt 16 r.pc,
    .ofByte (.ofInt 8 r.flags), r.cycles, r.breakHalts⟩, ?_⟩
  simp only [Cpu.registers, Flags.toByte_ofByte, toNat_ofInt_byte ha, toNat_ofInt_byte hx,
    toNat_ofInt_byte hy, toNat_ofInt_byte hsp, toNat_ofInt_word hpc, toNat_ofInt_byte hflags]

/-! ### Simulation -/

/-- A routine ended as a program did. -/
structure Ending.Agrees {α α' β : Type} (f : α → α') (e : Ending β α') (o : Outcome α β) :
    Prop where
  result_eq : e.result = (o.result.map f).mapError .fault
  registers_eq : e.registers = o.cpu.registers
  bus_eq : e.bus = o.bus
  inRange : ∀ q ∈ e.requests, q.InRange

/-- The routine does what the program does; `f` turns the value of the one into that of the
other. -/
def Simulates {α α' β : Type} [Bus β] (f : α → α') (r : Routine β α') (p : Program α) : Prop :=
  ∀ cpu bus, (r cpu.registers bus).Agrees f (p.run cpu bus)

section
variable {β α α' γ γ' : Type} [Bus β] {f : α → α'} {g : γ → γ'}

theorem simulates_pure {b : α'} {a : α} (h : b = f a) :
    Simulates (β := β) f (pure b) (pure a) := by
  intro cpu bus
  subst h
  exact ⟨rfl, rfl, rfl, fun q hq => by cases hq⟩

theorem simulates_get : Simulates (β := β) Cpu.registers get get := by
  intro cpu bus
  exact ⟨rfl, rfl, rfl, fun q hq => by cases hq⟩

theorem simulates_set {r : Registers} {c : Cpu} (h : r = c.registers) :
    Simulates (β := β) id (set r) (set c : Program PUnit) := by
  intro cpu bus
  subst h
  exact ⟨rfl, rfl, rfl, fun q hq => by cases hq⟩

theorem simulates_modify {h' : Registers → Registers} {h : Cpu → Cpu}
    (heq : ∀ c : Cpu, h' c.registers = (h c).registers) :
    Simulates (β := β) id (modify h') (modify h : Program PUnit) := by
  intro cpu bus
  exact ⟨rfl, heq cpu, rfl, fun q hq => by cases hq⟩

theorem simulates_fail {failure : Failure} {fault : Fault} (h : failure = .fault fault) :
    Simulates (β := β) f (Routine.fail failure) (Program.fail fault) := by
  intro cpu bus
  subst h
  exact ⟨rfl, rfl, rfl, fun q hq => by cases hq⟩

theorem Ending.Agrees.andThen {e : Ending β α'} {o : Outcome α β} (h : e.Agrees f o)
    {s : α' → Routine β γ'} {k : α → Program γ}
    (hk : ∀ a, o.result = .ok a → Simulates g (s (f a)) (k a)) :
    (e.andThen s).Agrees g (o.andThen fun cpu a bus => (k a).run cpu bus) := by
  obtain ⟨result, r, bus, requests⟩ := e
  obtain ⟨result', cpu, bus', accesses⟩ := o
  obtain ⟨hresult, hregisters, hbus, hinRange⟩ := h
  cases hregisters
  cases hbus
  cases hresult
  cases result' with
  | error fault => exact ⟨rfl, rfl, rfl, hinRange⟩
  | ok a =>
      obtain ⟨hresult, hregisters, hbus, hinRange'⟩ := hk a rfl cpu bus
      refine ⟨hresult, hregisters, hbus, fun q hq => ?_⟩
      rcases List.mem_append.mp hq with hq | hq
      · exact hinRange q hq
      · exact hinRange' q hq

/-- Simulation goes through composition.  What is known of the value of the first program may be
used of the second. -/
theorem Simulates.bind_of {r : Routine β α'} {p : Program α} (h : Simulates f r p)
    {post : α → Prop} (hpost : ∀ cpu, (p cpu).Holds (fun _ _ => True) fun _ a => post a)
    {s : α' → Routine β γ'} {k : α → Program γ} (hk : ∀ a, post a → Simulates g (s (f a)) (k a)) :
    Simulates g (r >>= s) (p >>= k) := by
  intro cpu bus
  rw [Program.run_bind]
  exact (h cpu bus).andThen fun a ha => hk a (Program.of_ok (hpost cpu) ha)

theorem Simulates.bind {r : Routine β α'} {p : Program α} (h : Simulates f r p)
    {s : α' → Routine β γ'} {k : α → Program γ} (hk : ∀ a, Simulates g (s (f a)) (k a)) :
    Simulates g (r >>= s) (p >>= k) :=
  h.bind_of (fun cpu => (p cpu).holds_of_forall (fun _ _ => trivial) fun _ _ => trivial)
    fun a (_ : True) => hk a

end

/-! ### The bus -/

/-- A byte as an integer. -/
abbrev byteNumber (b : Byte) : Int := b.toNat

/-- A word as an integer. -/
abbrev wordNumber (w : Word) : Int := w.toNat

theorem inRange_singleton {q : Request} (h : q.InRange) : ∀ q' ∈ [q], q'.InRange := by
  intro q' hq
  cases List.mem_singleton.mp hq
  exact h

section
variable {β : Type} [Bus β] [CheckedBus β] (hβ : CheckedBus.Faithful β)
include hβ

theorem simulates_read {n : Int} {a : Word} (h : n = a.toNat) :
    Simulates (β := β) byteNumber (Routine.read n) (Program.read a) := by
  intro cpu bus
  subst h
  have hread := hβ.read_eq bus a
  show Ending.Agrees _ _ (Activity.run (.read cpu a (.done cpu)) bus)
  rw [Activity.run, Routine.read]
  cases hf : Bus.readFault? bus a with
  | some fault =>
      rw [hf] at hread
      rw [hread]
      exact ⟨rfl, rfl, rfl, inRange_singleton (toNat_inRange_word a)⟩
  | none =>
      rw [hf] at hread
      rw [hread]
      exact ⟨rfl, rfl, rfl, inRange_singleton (toNat_inRange_word a)⟩

theorem simulates_write {n m : Int} {a : Word} {d : Byte} (h : n = a.toNat) (h' : m = d.toNat) :
    Simulates (β := β) id (Routine.write n m) (Program.write a d) := by
  intro cpu bus
  subst h h'
  have hwrite := hβ.write_eq bus a d
  show Ending.Agrees _ _ (Activity.run (.write cpu a d fun _ => .done cpu ()) bus)
  rw [Activity.run, Routine.write]
  cases hf : Bus.writeFault? bus a with
  | some fault =>
      rw [hf] at hwrite
      rw [hwrite]
      exact ⟨rfl, rfl, rfl, inRange_singleton ⟨toNat_inRange_word a, toNat_inRange d⟩⟩
  | none =>
      rw [hf] at hwrite
      rw [hwrite]
      exact ⟨rfl, rfl, rfl, inRange_singleton ⟨toNat_inRange_word a, toNat_inRange d⟩⟩

theorem simulates_fetch : Simulates (β := β) byteNumber Routine.fetch Program.fetch := by
  intro cpu bus
  have hnext : ({ cpu.registers with pc := (cpu.registers.pc + 1) % 0x10000 } : Registers) =
      ({ cpu with pc := cpu.pc + 1 } : Cpu).registers :=
    congrArg ({ cpu.registers with pc := · }) (word_add_one cpu.pc)
  have hread : CheckedBus.read bus cpu.registers.pc = _ := hβ.read_eq bus cpu.pc
  show ((Routine.read cpu.registers.pc cpu.registers bus).andThen _).Agrees _
    (Activity.run (.fetch cpu _) bus)
  rw [Activity.run, Routine.read]
  cases hf : Bus.readFault? bus cpu.pc with
  | some fault =>
      rw [hf] at hread
      rw [hread]
      exact ⟨rfl, rfl, rfl, inRange_singleton (toNat_inRange_word cpu.pc)⟩
  | none =>
      rw [hf] at hread
      rw [hread]
      exact ⟨rfl, hnext, rfl, inRange_singleton (toNat_inRange_word cpu.pc)⟩

/-! ### Words and the stack -/

theorem simulates_fetchWord :
    Simulates (β := β) wordNumber Routine.fetchWord Program.fetchWord :=
  (simulates_fetch hβ).bind fun low => (simulates_fetch hβ).bind fun high =>
    simulates_pure (joined_eq low high)

/-- The two bytes of a word are at addresses of the bus. -/
theorem simulates_readWord {n : Int} {a : Word} (h : n = a.toNat) (ha : a.toNat < 0xFFFF) :
    Simulates (β := β) wordNumber (Routine.readWord n) (Program.readWord a) := by
  have hnext : n + 1 = (a + 1).toNat := by
    rw [BitVec.toNat_add, h]
    show (a.toNat : Int) + 1 = ((a.toNat + 1) % 2 ^ 16 : Nat)
    omega
  exact (simulates_read hβ h).bind fun low => (simulates_read hβ hnext).bind fun high =>
    simulates_pure (joined_eq low high)

theorem simulates_readPointer {n : Int} {a : Word} (h : n = a.toNat) :
    Simulates (β := β) wordNumber (Routine.readPointer n) (Program.readPointer a) := by
  subst h
  exact (simulates_read hβ rfl).bind fun low =>
    (simulates_read hβ (nextInPage_eq a)).bind fun high => simulates_pure (joined_eq low high)

theorem simulates_push {m : Int} {d : Byte} (h : m = d.toNat) :
    Simulates (β := β) id (Routine.push m) (Program.push d) := by
  refine simulates_get.bind fun cpu => ?_
  refine (simulates_write hβ (stackCell_eq cpu.sp) h).bind fun _ => ?_
  exact simulates_set (congrArg ({ cpu.registers with sp := · }) (byte_sub_one cpu.sp))

theorem simulates_pull : Simulates (β := β) byteNumber Routine.pull Program.pull := by
  have hsp : ∀ c : Cpu, ({ c.registers with sp := (c.registers.sp + 1) % 0x100 } : Registers) =
      ({ c with sp := c.sp + 1 } : Cpu).registers :=
    fun c => congrArg ({ c.registers with sp := · }) (byte_add_one c.sp)
  refine (simulates_modify hsp).bind fun _ => ?_
  exact simulates_get.bind fun cpu => simulates_read hβ (stackCell_eq cpu.sp)

theorem simulates_pushWord {n : Int} {w : Word} (h : n = w.toNat) :
    Simulates (β := β) id (Routine.pushWord n) (Program.pushWord w) := by
  have hlt := w.isLt
  have hhigh : n / 0x100 % 0x100 = w.high.toNat := by
    rw [h, Word.toNat_high]
    omega
  have hlow : n % 0x100 = w.low.toNat := by
    rw [h, Word.toNat_low]
    rfl
  exact (simulates_push hβ hhigh).bind fun _ => simulates_push hβ hlow

theorem simulates_pullWord : Simulates (β := β) wordNumber Routine.pullWord Program.pullWord :=
  (simulates_pull hβ).bind fun low => (simulates_pull hβ).bind fun high =>
    simulates_pure (joined_eq low high)

/-! ### Operands -/

theorem simulates_operandOf (m : Mode) :
    Simulates (β := β) operandNumber (operandOf m) m.operand := by
  cases m with
  | accumulator => exact simulates_pure rfl
  | implied => exact simulates_pure rfl
  | immediate => exact (simulates_fetch hβ).bind fun b => simulates_pure rfl
  | relative => exact (simulates_fetch hβ).bind fun b => simulates_pure rfl
  | zeroPage =>
      refine (simulates_fetch hβ).bind fun offset => simulates_pure ?_
      exact congrArg (Operand.cell · false) (zeroPage_eq offset)
  | zeroPageX =>
      refine (simulates_fetch hβ).bind fun offset => simulates_get.bind fun cpu => simulates_pure ?_
      exact congrArg (Operand.cell · false) (zeroPage_add_eq offset cpu.x)
  | zeroPageY =>
      refine (simulates_fetch hβ).bind fun offset => simulates_get.bind fun cpu => simulates_pure ?_
      exact congrArg (Operand.cell · false) (zeroPage_add_eq offset cpu.y)
  | absolute => exact (simulates_fetchWord hβ).bind fun base => simulates_pure rfl
  | absoluteX =>
      refine (simulates_fetchWord hβ).bind fun base => simulates_get.bind fun cpu => ?_
      exact simulates_pure (indexed_eq base cpu.x)
  | absoluteY =>
      refine (simulates_fetchWord hβ).bind fun base => simulates_get.bind fun cpu => ?_
      exact simulates_pure (indexed_eq base cpu.y)
  | indirect =>
      refine (simulates_fetchWord hβ).bind fun pointer => ?_
      exact (simulates_readPointer hβ rfl).bind fun address => simulates_pure rfl
  | indirectX =>
      refine (simulates_fetch hβ).bind fun offset => simulates_get.bind fun cpu => ?_
      refine (simulates_readPointer hβ (zeroPage_add_eq offset cpu.x)).bind fun address => ?_
      exact simulates_pure rfl
  | indirectY =>
      refine (simulates_fetch hβ).bind fun offset => ?_
      refine (simulates_readPointer hβ (zeroPage_eq offset)).bind fun base => ?_
      exact simulates_get.bind fun cpu => simulates_pure (indexed_eq base cpu.y)

end

/-! ### Operations -/

/-- The kinds of operands. -/
inductive Kind where
  | none | accumulator | value | cell
deriving DecidableEq

/-- The kind of an operand. -/
def kindOf : Famicom.Operand → Kind
  | .none => .none
  | .accumulator => .accumulator
  | .value _ => .value
  | .cell _ _ => .cell

/-- The kind of operand that a mode finds. -/
def kindFound : Mode → Kind
  | .implied => .none
  | .accumulator => .accumulator
  | .immediate | .relative => .value
  | .zeroPage | .zeroPageX | .zeroPageY | .absolute | .absoluteX | .absoluteY | .indirect
  | .indirectX | .indirectY => .cell

/-- Whether an operation can work on an operand of a kind. -/
def worksOn : Famicom.Operation → Kind → Bool
  | .load _, kind | .branch _, kind => kind ≠ .none
  | .store _, kind | .alter _ _, kind => kind = .accumulator ∨ kind = .cell
  | .jump, kind | .call, kind => kind = .cell
  | _, _ => true

theorem kindOf_operand (m : Mode) (cpu : Cpu) :
    (m.operand cpu).Holds (fun _ _ => True) fun _ o => kindOf o = kindFound m := by
  cases m <;> simp [Mode.operand, Program.fetchWord, Program.readPointer, Famicom.Operand.indexed,
    kindOf, kindFound]

/-- Each instruction has an operand of a kind that its operation can work on. -/
theorem worksOn_of_decode {opcode : Byte} {i : Instruction}
    (h : Instruction.decode opcode = some i) :
    worksOn i.mnemonic.operation (kindFound i.mode) = true := by
  have hall : ∀ opcode : Byte, (Instruction.decode opcode).all fun i =>
      worksOn i.mnemonic.operation (kindFound i.mode) := by
    decide +kernel
  have hi := hall opcode
  rw [h] at hi
  exact hi

section
variable {β : Type} [Bus β] {o : Famicom.Operand}

theorem simulates_address (ho : kindOf o = .cell) :
    Simulates (β := β) wordNumber (operandNumber o).address (pure o.address) := by
  cases o with
  | cell address crossed => exact simulates_pure rfl
  | none | accumulator | value b => cases ho

theorem simulates_jumpTo {n : Int} {a : Word} (h : n = a.toNat) :
    Simulates (β := β) id (jumpTo n) (Famicom.jumpTo a) := by
  subst h
  exact simulates_modify fun c => rfl

variable [CheckedBus β] (hβ : CheckedBus.Faithful β)
include hβ

theorem simulates_load (ho : kindOf o ≠ .none) :
    Simulates (β := β) byteNumber (operandNumber o).load o.load := by
  cases o with
  | none => exact absurd rfl ho
  | accumulator => exact simulates_get.bind fun cpu => simulates_pure rfl
  | value b => exact simulates_pure rfl
  | cell address crossed => exact simulates_read hβ rfl

theorem simulates_store {n : Int} {b : Byte} (h : n = b.toNat)
    (ho : kindOf o = .accumulator ∨ kindOf o = .cell) :
    Simulates (β := β) id ((operandNumber o).store n) (o.store b) := by
  subst h
  cases o with
  | accumulator => exact simulates_modify fun c => rfl
  | none | value b => rcases ho with ho | ho <;> cases ho
  | cell address crossed => exact simulates_write hβ rfl rfl

theorem simulates_enterHandler {vector' returnAddress' : Int} {vector returnAddress : Word}
    {status' : Int → Int} {status : Flags → Byte} (hvector : vector' = vector.toNat)
    (hlast : vector.toNat < 0xFFFF) (hreturn : returnAddress' = returnAddress.toNat)
    (hstatus : ∀ f : Flags, status' f.toByte.toNat = (status f).toNat) :
    Simulates (β := β) id (enterHandler vector' returnAddress' status')
      (Famicom.enterHandler vector returnAddress status) := by
  refine (simulates_pushWord hβ hreturn).bind fun _ => ?_
  refine simulates_get.bind fun cpu => ?_
  refine (simulates_push hβ (hstatus cpu.flags)).bind fun _ => ?_
  refine (simulates_modify fun c => put_registers c .interruptDisable true).bind fun _ => ?_
  exact (simulates_readWord hβ hvector hlast).bind fun address => simulates_jumpTo rfl

theorem simulates_perform {op' : Operation} {op : Famicom.Operation} (h : op'.Matches op)
    (ho : worksOn op (kindOf o) = true) :
    Simulates (β := β) id (perform op' (operandNumber o)) (op.perform o) := by
  cases h with
  | load heffect =>
      refine (simulates_load hβ (of_decide_eq_true ho)).bind fun b => ?_
      exact (simulates_modify (heffect · b)).bind fun _ => simulates_pure rfl
  | store hvalue =>
      refine simulates_get.bind fun cpu => ?_
      refine (simulates_store hβ (hvalue cpu) (of_decide_eq_true ho)).bind fun _ => ?_
      exact simulates_pure rfl
  | alter hchange heffect =>
      refine (simulates_load hβ ?_).bind fun b => simulates_get.bind fun cpu => ?_
      · intro hnone
        rw [hnone] at ho
        cases ho
      rw [hchange]
      refine (simulates_set rfl).bind fun _ => ?_
      refine (simulates_store hβ rfl (of_decide_eq_true ho)).bind fun _ => ?_
      exact (simulates_modify (heffect · _)).bind fun _ => simulates_pure rfl
  | skip => exact simulates_pure rfl
  | internal heffect => exact (simulates_modify heffect).bind fun _ => simulates_pure rfl
  | @branch flag value taken htaken =>
      refine (simulates_load hβ (of_decide_eq_true ho)).bind fun b => ?_
      refine simulates_get.bind fun cpu => ?_
      rw [htaken, has_registers]
      by_cases h : flag.get cpu.flags = value
      · rw [if_pos h, if_pos (decide_eq_true h)]
        refine (simulates_jumpTo (branchTarget_eq cpu.pc b)).bind fun _ => simulates_pure ?_
        exact (congrArg (branchCycles cpu.pc.toNat) (branchTarget_eq cpu.pc b)).trans
          (branchCycles_eq cpu.pc _)
      · rw [if_neg h, if_neg (by rw [decide_eq_false h]; decide)]
        exact simulates_pure rfl
  | push hvalue =>
      refine simulates_get.bind fun cpu => ?_
      exact (simulates_push hβ (hvalue cpu)).bind fun _ => simulates_pure rfl
  | pull heffect =>
      refine (simulates_pull hβ).bind fun b => ?_
      exact (simulates_modify (heffect · b)).bind fun _ => simulates_pure rfl
  | jump =>
      refine (simulates_address (of_decide_eq_true ho)).bind
        (k := fun address => do Famicom.jumpTo address; return 0) fun address => ?_
      exact (simulates_jumpTo rfl).bind fun _ => simulates_pure rfl
  | call =>
      refine simulates_get.bind fun cpu => ?_
      refine (simulates_pushWord hβ (word_sub_one cpu.pc)).bind fun _ => ?_
      refine (simulates_address (of_decide_eq_true ho)).bind
        (k := fun address => do Famicom.jumpTo address; return 0) fun address => ?_
      exact (simulates_jumpTo rfl).bind fun _ => simulates_pure rfl
  | returnFromCall =>
      refine (simulates_pullWord hβ).bind fun address => ?_
      exact (simulates_jumpTo (word_add_one address)).bind fun _ => simulates_pure rfl
  | returnFromInterrupt =>
      refine (simulates_pull hβ).bind fun b => ?_
      refine (simulates_modify fun c => ?_).bind fun _ => ?_
      · rw [withoutBreak_toNat]
        rfl
      · refine (simulates_pullWord hβ).bind fun address => ?_
        exact (simulates_jumpTo rfl).bind fun _ => simulates_pure rfl
  | softwareInterrupt =>
      refine simulates_get.bind fun cpu => ?_
      have h : Simulates (β := β) id
          (enterHandler 0xFFFE ((cpu.registers.pc + 1) % 0x10000) pushedBySoftware)
          (Famicom.enterHandler Cpu.irqVector (cpu.pc + 1) Flags.pushedBySoftware) :=
        simulates_enterHandler hβ rfl (by decide) (word_add_one cpu.pc) pushedBySoftware_toByte
      exact h.bind fun _ => simulates_pure rfl

/-! ### Steps and interrupts -/

theorem simulates_execute {i : Instruction}
    (hi : worksOn i.mnemonic.operation (kindFound i.mode) = true) :
    Simulates (β := β) id (execute i) (Cpu.execute i) := by
  refine (simulates_operandOf hβ i.mode).bind_of (kindOf_operand i.mode) fun o ho => ?_
  have hperform : Simulates (β := β) id (perform (operationOf i.mnemonic) (operandNumber o))
      (i.mnemonic.operation.perform o) :=
    simulates_perform hβ (operationOf_matches i.mnemonic) (by rw [ho]; exact hi)
  refine hperform.bind fun branch => ?_
  rw [crossed_operandNumber]
  have hspend : Simulates (β := β) id (spend (Cpu.cyclesOf i o branch))
      (Cpu.spend (Cpu.cyclesOf i o branch)) := simulates_modify fun c => rfl
  exact hspend.bind fun _ => simulates_pure rfl

theorem simulates_step : Simulates (β := β) id step Cpu.step := by
  refine simulates_get.bind fun start => (simulates_fetch hβ).bind fun opcode => ?_
  have hzero : (opcode.toNat : Int) = 0 ↔ opcode = 0 := by
    rw [← BitVec.toNat_inj]
    exact Int.natCast_eq_zero
  by_cases h : opcode = 0 ∧ start.breakHalts
  · rw [if_pos h, if_pos ⟨hzero.mpr h.1, h.2⟩]
    exact simulates_pure rfl
  · rw [if_neg h, if_neg fun h' => h ⟨hzero.mp h'.1, h'.2⟩, Byte.ofInt?_toNat]
    dsimp only
    cases hd : Instruction.decode opcode with
    | none =>
        have hpc : BitVec.ofInt 16 start.registers.pc = start.pc := by
          apply BitVec.eq_of_toInt_eq
          rw [BitVec.toInt_ofInt]
          exact (BitVec.toInt_eq_toNat_bmod start.pc).symm
        rw [hpc]
        exact simulates_fail rfl
    | some i =>
        exact (simulates_execute hβ (worksOn_of_decode hd)).bind fun cycles => simulates_pure rfl

theorem simulates_interrupt {vector' : Int} {vector : Word} (h : vector' = vector.toNat)
    (hlast : vector.toNat < 0xFFFF) :
    Simulates (β := β) id (interrupt vector') (Cpu.interrupt vector) := by
  refine simulates_get.bind fun cpu => ?_
  have henter : Simulates (β := β) id (enterHandler vector' cpu.registers.pc withoutBreak)
      (Famicom.enterHandler vector cpu.pc Flags.pushedByInterrupt) :=
    simulates_enterHandler hβ h hlast rfl withoutBreak_toByte
  refine henter.bind fun _ => ?_
  have hspend : Simulates (β := β) id (spend Cpu.interruptCycles)
      (Cpu.spend Cpu.interruptCycles) := simulates_modify fun c => rfl
  exact hspend.bind fun _ => simulates_pure rfl

theorem simulates_nmi : Simulates (β := β) id nmi Cpu.nmi :=
  simulates_interrupt hβ rfl (by decide)

theorem simulates_irq : Simulates (β := β) id irq Cpu.irq := by
  refine simulates_get.bind fun cpu => ?_
  have hflag : Flag.interruptDisable.get cpu.flags = cpu.flags.interruptDisable := rfl
  rw [has_registers, hflag]
  by_cases h : cpu.flags.interruptDisable = true
  · rw [if_pos h, if_pos h]
    exact simulates_pure rfl
  · rw [if_neg h, if_neg h]
    exact simulates_interrupt hβ rfl (by decide)

theorem simulates_routine (c : Cpu.Call) : Simulates (β := β) id (routine c) c.program := by
  cases c with
  | step => exact simulates_step hβ
  | nmi => exact (simulates_nmi hβ).bind fun cycles => simulates_pure rfl
  | irq => exact (simulates_irq hβ).bind fun cycles => simulates_pure rfl

/-- Calls lead both processors to the same place. -/
theorem calls_eq (t : Cpu.Trail β) (cs : List Cpu.Call) :
    (⟨t.cpu.registers, t.bus⟩ : Walk β).calls cs =
      ⟨(t.calls cs).cpu.registers, (t.calls cs).bus⟩ := by
  induction cs generalizing t with
  | nil => rfl
  | cons c cs ih =>
      have h := simulates_routine hβ c t.cpu t.bus
      have hcall : (⟨t.cpu.registers, t.bus⟩ : Walk β).call c =
          ⟨(t.call c).cpu.registers, (t.call c).bus⟩ := by
        show Walk.mk (routine c _ _).registers (routine c _ _).bus = _
        rw [h.registers_eq, h.bus_eq]
        rfl
      show Walk.calls (Walk.call _ c) cs = _
      rw [hcall]
      exact ih (t.call c)

end

end Famicom.Unbounded
