import Famicom.Proofs.Cpu.Addressing
import Famicom.Proofs.Cpu.Scratch
import Famicom.Proofs.Trace.Recording

/-! # The account of cycles

What an instruction takes is told by a sheet (`Timing.sheet`), by the page of its operand and by
where a branch leads.  `Cpu.cyclesOf_eq` reckons it in numbers, from the memory, the registers and
the flags that the instruction begins with, so nothing that has gone before has a part in it.

A bench that has been started anew adds up what its calls answer, and nothing else
(`Bench.cycles_perform` is one task, `Bench.cycles_foldl` are many): what halts, fails or is masked
costs nothing.  `Bench.account_balances` is both together. -/

namespace Famicom

open Program
open Unbounded (Flag)

/-! ### The sheet -/

/-- The cycles that an opcode takes, and whether it takes one more if its operand is in another
page. -/
structure Timing where
  cycles : Nat
  paged : Bool
deriving Repr, DecidableEq

namespace Timing

/-- An entry of the sheet that stands as it is. -/
def plain (cycles : Nat) : Option Timing := some ⟨cycles, false⟩

/-- An entry of the sheet with a mark for another page. -/
def marked (cycles : Nat) : Option Timing := some ⟨cycles, true⟩

/-- The timings, with the upper half of the opcode as the row and the lower as the column. -/
def sheet : Vector (Vector (Option Timing) 16) 16 := #v[
  #v[plain 7, plain 6, none, plain 8, plain 3, plain 3, plain 5, plain 5, plain 3, plain 2,
    plain 2, none, plain 4, plain 4, plain 6, plain 6],
  #v[plain 2, marked 5, none, plain 8, plain 4, plain 4, plain 6, plain 6, plain 2, marked 4,
    plain 2, plain 7, marked 4, marked 4, plain 7, plain 7],
  #v[plain 6, plain 6, none, plain 8, plain 3, plain 3, plain 5, plain 5, plain 4, plain 2,
    plain 2, none, plain 4, plain 4, plain 6, plain 6],
  #v[plain 2, marked 5, none, plain 8, plain 4, plain 4, plain 6, plain 6, plain 2, marked 4,
    plain 2, plain 7, marked 4, marked 4, plain 7, plain 7],
  #v[plain 6, plain 6, none, plain 8, plain 3, plain 3, plain 5, plain 5, plain 3, plain 2,
    plain 2, none, plain 3, plain 4, plain 6, plain 6],
  #v[plain 2, marked 5, none, plain 8, plain 4, plain 4, plain 6, plain 6, plain 2, marked 4,
    plain 2, plain 7, marked 4, marked 4, plain 7, plain 7],
  #v[plain 6, plain 6, none, plain 8, plain 3, plain 3, plain 5, plain 5, plain 4, plain 2,
    plain 2, none, plain 5, plain 4, plain 6, plain 6],
  #v[plain 2, marked 5, none, plain 8, plain 4, plain 4, plain 6, plain 6, plain 2, marked 4,
    plain 2, plain 7, marked 4, marked 4, plain 7, plain 7],
  #v[plain 2, plain 6, plain 2, plain 6, plain 3, plain 3, plain 3, plain 3, plain 2, plain 2,
    plain 2, none, plain 4, plain 4, plain 4, plain 4],
  #v[plain 2, plain 6, none, none, plain 4, plain 4, plain 4, plain 4, plain 2, plain 5, plain 2,
    none, none, plain 5, none, none],
  #v[plain 2, plain 6, plain 2, plain 6, plain 3, plain 3, plain 3, plain 3, plain 2, plain 2,
    plain 2, none, plain 4, plain 4, plain 4, plain 4],
  #v[plain 2, marked 5, none, marked 5, plain 4, plain 4, plain 4, plain 4, plain 2, marked 4,
    plain 2, none, marked 4, marked 4, marked 4, marked 4],
  #v[plain 2, plain 6, plain 2, plain 8, plain 3, plain 3, plain 5, plain 5, plain 2, plain 2,
    plain 2, none, plain 4, plain 4, plain 6, plain 6],
  #v[plain 2, marked 5, none, plain 8, plain 4, plain 4, plain 6, plain 6, plain 2, marked 4,
    plain 2, plain 7, marked 4, marked 4, plain 7, plain 7],
  #v[plain 2, plain 6, plain 2, plain 8, plain 3, plain 3, plain 5, plain 5, plain 2, plain 2,
    plain 2, plain 2, plain 4, plain 4, plain 6, plain 6],
  #v[plain 2, marked 5, none, plain 8, plain 4, plain 4, plain 6, plain 6, plain 2, marked 4,
    plain 2, plain 7, marked 4, marked 4, plain 7, plain 7]]

/-- The timing of an opcode, if it has a meaning. -/
def ofOpcode (opcode : Byte) : Option Timing :=
  (sheet.get (opcode.extractLsb' 4 4).toFin).get (opcode.extractLsb' 0 4).toFin

/-- The sheet says what the rules for operations and modes say. -/
theorem ofOpcode_eq (opcode : Byte) : ofOpcode opcode =
    (Instruction.decode opcode).map fun i => ⟨i.baseCycles, i.paysForPage⟩ := by
  revert opcode
  decide +kernel

end Timing

/-! ### Instructions -/

/-- The cycles that a branch adds, in numbers: none if it is not taken, and one more if it leads
into another page than that of the next instruction. -/
def Mnemonic.branchCost (peek : Nat → Nat) (pc : Nat) (flags : Flags) (m : Mnemonic) : Nat :=
  match m.branchesIf? with
  | none => 0
  | some (flag, value) =>
    if flag.get flags = value then
      let next : Int := (pc + 2) % 0x10000
      let target : Int := (pc + 2 + branchDistance (peek (pc + 1))) % 0x10000
      1 + if next / 256 ≠ target / 256 then 1 else 0
    else 0

/-- The cycles of an instruction, in numbers. -/
def Instruction.cost (i : Instruction) (t : Timing) (peek : Nat → Nat) (pc x y : Nat)
    (flags : Flags) : Nat :=
  t.cycles + (if t.paged ∧ i.mode.leavesPage peek pc x y then 1 else 0) +
    i.mnemonic.branchCost peek pc flags

namespace Mnemonic

/-- The mnemonics without a condition add no cycles. -/
theorem added_of_branchesIf {m : Mnemonic} (h : m.branchesIf? = none) (o : Operand) (c : Cpu)
    (memory : FullMemory) : (m.operation.performed o c memory).added = 0 := by
  cases m <;> first | rfl | cases h

end Mnemonic

namespace Cpu

section
variable {i : Instruction} {opcode : Byte} (cpu : Cpu) (m : FullMemory)

theorem branchCycles_eq (pc : Word) (distance : Byte) :
    branchCycles pc (branchTarget pc distance) =
      1 + if (pc.toNat : Int) / 256 ≠ (pc.toNat + branchDistance distance.toNat) % 0x10000 / 256
        then 1 else 0 := by
  rw [← toNat_branchTarget, branchCycles, Word.crossesPage_eq]
  congr 1
  by_cases h : pc.toNat / 256 = (branchTarget pc distance).toNat / 256
  · rw [decide_eq_false (not_not.mpr h), if_neg (by omega)]
    rfl
  · rw [decide_eq_true h, if_pos (by omega)]
    rfl

theorem added_eq_branchCost (hd : Instruction.decode opcode = some i) :
    (i.mnemonic.operation.performed (i.mode.operandAt cpu m.busRead) (cpu.past i.mode) m).added =
      i.mnemonic.branchCost m.peek cpu.pc.toNat cpu.flags := by
  cases hb : i.mnemonic.branchesIf? with
  | none => rw [Mnemonic.added_of_branchesIf hb, Mnemonic.branchCost, hb]
  | some condition =>
      obtain ⟨flag, value⟩ := condition
      have hmode : i.mode = .relative :=
        (Instruction.operand_of_decode hd).1.mpr (Option.isSome_of_eq_some hb)
      have hnext : ((cpu.past .relative).pc.toNat : Int) = (cpu.pc.toNat + 2) % 0x10000 :=
        toNat_pc_past_relative cpu
      rw [added_branch (Mnemonic.operation_of_branchesIf hb), hmode, branchCycles_eq, hnext,
        Int.emod_add_emod, Mnemonic.branchCost, hb, Mode.peek_next]
      simp only [beq_iff_eq]
      rfl

/-- **What an instruction takes**, in numbers. -/
theorem cyclesOf_eq (hd : Instruction.decode opcode = some i) :
    let o := i.mode.operandAt cpu m.busRead
    cyclesOf i o (i.mnemonic.operation.performed o (cpu.past i.mode) m).added =
      i.cost ⟨i.baseCycles, i.paysForPage⟩ m.peek cpu.pc.toNat cpu.x.toNat cpu.y.toNat
        cpu.flags := by
  intro o
  rw [added_eq_branchCost cpu m hd, cyclesOf, Mode.crossed_operandAt, Instruction.cost,
    Nat.add_right_comm]
  congr 2
  cases i.paysForPage <;>
    cases i.mode.leavesPage m.peek cpu.pc.toNat cpu.x.toNat cpu.y.toNat <;> rfl

end

/-- What the calls of a processor in the given state answer. -/
structure Rates (cpu : Cpu) (m : FullMemory) : Prop where
  /-- A step that is completed takes what the sheet says, with what another page and a branch
  add. -/
  step : ∀ n, (step.run cpu m).result = .ok (some n) →
    ∃ i t, Instruction.decode (m.busRead cpu.pc) = some i ∧
      Timing.ofOpcode (m.busRead cpu.pc) = some t ∧
      n = i.cost t m.peek cpu.pc.toNat cpu.x.toNat cpu.y.toNat cpu.flags ∧ 2 ≤ n ∧ n ≤ 8
  /-- Whether earlier instructions have led into another page makes no difference. -/
  leftOver : ∀ s : Scratch, (Prod.fst <$> stepWith s).run cpu m = Cpu.step.run cpu m
  nmi : (Call.nmi.program.run cpu m).result = .ok (some 7)
  irq : (Call.irq.program.run cpu m).result =
    .ok (some (if cpu.flags.interruptDisable then 0 else 7))

theorem rates (cpu : Cpu) (m : FullMemory) : cpu.Rates m where
  step n h := by
    obtain ⟨i, hd, hgo⟩ := exists_instruction_of_completed h
    have hbounds := (of_ok (step_holds cpu) h).2 n rfl
    rw [step_performed hd hgo] at h
    cases h
    refine ⟨i, _, hd, ?_, cyclesOf_eq cpu m hd, hbounds⟩
    rw [Timing.ofOpcode_eq, hd]
    rfl
  leftOver s := by rw [fst_stepWith]
  nmi := by
    rw [Call.program, run_map, nmi, run_interrupt]
    rfl
  irq := by
    rw [Call.program, run_map, run_irq]
    split
    · rfl
    · rw [run_interrupt]
      rfl

end Cpu

/-! ### Histories -/

/-- What an answer has cost. -/
def charge : Except Fault (Option Nat) → Nat
  | .ok (some n) => n
  | .ok none | .error _ => 0

/-- A task by which the processor starts anew. -/
def Task.StartsAnew : Task → Prop
  | order (.reset _) => True
  | _ => False

namespace Cpu

/-- A call answers what it adds to the account. -/
theorem cycles_call (cpu : Cpu) (m : FullMemory) (c : Call) :
    (c.program.run cpu m).cpu.cycles = cpu.cycles + charge (c.program.run cpu m).result := by
  cases c with
  | step =>
      show (Cpu.step.run cpu m).cpu.cycles = _ + charge (Cpu.step.run cpu m).result
      cases h : (Cpu.step.run cpu m).result with
      | ok r =>
          rw [(of_ok (step_holds cpu) h).1]
          cases r <;> rfl
      | error fault =>
          obtain ⟨s, hs, -⟩ := of_error (step_holds cpu) h
          exact hs.1
  | nmi =>
      rw [Call.program, run_map, nmi, run_interrupt]
      rfl
  | irq =>
      rw [Call.program, run_map, run_irq]
      split
      · rfl
      · rw [run_interrupt]
        rfl

end Cpu

namespace Bench

/-- A task adds what it answers. -/
theorem cycles_perform (b : Bench) {t : Task} (ht : ¬ t.StartsAnew) :
    ∃ r, (b.perform t).answers = b.answers ++ [r] ∧
      (b.perform t).cpu.cycles = b.cpu.cycles + charge r := by
  have hstored : ∀ r : Except Fault FullMemory, ∃ r', (b.stored r).answers = b.answers ++ [r'] ∧
      (b.stored r).cpu.cycles = b.cpu.cycles + charge r' := by
    intro r
    cases r with
    | ok m => exact ⟨.ok none, rfl, rfl⟩
    | error fault => exact ⟨.error fault, rfl, rfl⟩
  cases t with
  | order o =>
      cases o with
      | call c => exact ⟨_, rfl, Cpu.cycles_call b.cpu b.memory c⟩
      | reset pc => exact absurd trivial ht
  | assign register value =>
      refine ⟨.ok none, rfl, ?_⟩
      cases register <;> rfl
  | write address data => exact hstored _
  | writeAll address data => exact hstored _

/-- Tasks add the sum of what they answer. -/
theorem cycles_foldl (b : Bench) {ts : List Task} (hts : ∀ t ∈ ts, ¬ t.StartsAnew) :
    ∃ rs, rs.length = ts.length ∧ (ts.foldl perform b).answers = b.answers ++ rs ∧
      (ts.foldl perform b).cpu.cycles = b.cpu.cycles + (rs.map charge).sum := by
  induction ts generalizing b with
  | nil => exact ⟨[], rfl, (List.append_nil _).symm, rfl⟩
  | cons t ts ih =>
      obtain ⟨r, hanswer, hcycles⟩ := b.cycles_perform (hts t List.mem_cons_self)
      obtain ⟨rs, hlength, hanswers, hsum⟩ :=
        ih (b.perform t) fun t ht => hts t (List.mem_cons_of_mem _ ht)
      refine ⟨r :: rs, congrArg Nat.succ hlength, ?_, ?_⟩
      · rw [List.foldl_cons, hanswers, hanswer, List.append_assoc]
        rfl
      · rw [List.foldl_cons, hsum, hcycles, List.map_cons, List.sum_cons, Nat.add_assoc]

theorem cycles_reset (b : Bench) (pc : Option Word) :
    (b.perform (.order (.reset pc))).cpu.cycles = 7 := by
  have hreset : (Cpu.Order.reset pc).program = (fun _ => none) <$> Cpu.reset pc := rfl
  obtain ⟨u, hu⟩ := Program.done_of_full (Cpu.reset_holds pc b.cpu) b.memory
  show ((Cpu.Order.reset pc).program.run b.cpu b.memory).cpu.cycles = 7
  rw [hreset, Program.run_map]
  exact Program.of_ok (Cpu.reset_holds pc b.cpu) hu

/-- **The account of cycles.**  Since the processor was last started anew it has counted 7 cycles
and what its calls have answered, and the next call answers what it takes. -/
theorem account_balances (b : Bench) (pc : Option Word) {ts : List Task}
    (hts : ∀ t ∈ ts, ¬ t.StartsAnew) :
    let anew := b.perform (.order (.reset pc))
    let now := ts.foldl perform anew
    (∃ rs, rs.length = ts.length ∧ now.answers = anew.answers ++ rs ∧
      now.cpu.cycles = 7 + (rs.map charge).sum) ∧ now.cpu.Rates now.memory := by
  intro anew now
  obtain ⟨rs, hlength, hanswers, hcycles⟩ := anew.cycles_foldl hts
  rw [b.cycles_reset pc] at hcycles
  exact ⟨⟨rs, hlength, hanswers, hcycles⟩, Cpu.rates _ _⟩

/-- There are such histories: here a load from another page, and an interrupt that is masked. -/
theorem account_balances_masked :
    ∃ b : Bench,
      let ts : List Task := [.assign .x 0xFF, .step, .order (.call .irq)]
      (∀ t ∈ ts, ¬ t.StartsAnew) ∧
        let now := ts.foldl perform (b.perform (.order (.reset (some 0x0200))))
        now.answers = [.ok none, .ok none, .ok (some 5), .ok (some 0)] ∧
          now.cpu.cycles = 12 ∧ now.cpu.Rates now.memory := by
  obtain ⟨m, hop, hlo, hhi⟩ : ∃ m : FullMemory,
      m.busRead 0x0200 = 0xBD ∧ m.busRead 0x0201 = 0x80 ∧ m.busRead 0x0202 = 2 := by
    refine ⟨.ofFn fun i => if i = 0x0200 then 0xBD else if i = 0x0201 then 0x80 else 2, ?_⟩
    simp only [Memory.busRead_ofFn]
    decide
  let start : Cpu := { x := 0xFF, sp := 0xFD, pc := 0x0200, flags := .initial, cycles := 7 }
  have hd : Instruction.decode (m.busRead start.pc) = some ⟨.lda, .absoluteX, true⟩ := by
    rw [show start.pc = 0x0200 from rfl, hop]
    decide
  have hstep := Cpu.step_performed hd (Cpu.not_halt_of_decode hd (by decide))
  have hword : Word.ofBytes (m.busRead (start.pc + 2)) (m.busRead (start.pc + 1)) = 0x0280 := by
    rw [show start.pc + 1 = 0x0201 from rfl, show start.pc + 2 = 0x0202 from rfl, hlo, hhi]
    rfl
  have hresult : (Cpu.step.run start m).result = .ok (some 5) := by
    rw [hstep]
    show Except.ok (some (4 + 0 +
      (true && (Operand.indexed (Word.ofBytes _ _) 0xFF).crossed).toNat)) = _
    rw [hword]
    rfl
  have hmasked : (Cpu.step.run start m).cpu.flags.interruptDisable = true := by
    rw [hstep]
    rfl
  have hirq := (Cpu.rates (Cpu.step.run start m).cpu (Cpu.step.run start m).bus).irq
  rw [hmasked, if_pos rfl] at hirq
  have hts : ∀ t ∈ ([.assign .x 0xFF, .step, .order (.call .irq)] : List Task),
      ¬ t.StartsAnew := by
    simp [Task.StartsAnew]
  refine ⟨⟨{}, m, []⟩, hts, ?_⟩
  intro now
  have hanswers : now.answers = [.ok none, .ok none, .ok (some 5), .ok (some 0)] := by
    show [_, _, (Cpu.step.run start m).result, Outcome.result _] = _
    rw [hresult]
    exact congrArg (fun r => [_, _, _, r]) hirq
  obtain ⟨⟨rs, -, hrs, hcycles⟩, hrates⟩ := account_balances ⟨{}, m, []⟩ (some 0x0200) hts
  have hnew : rs = [.ok none, .ok (some 5), .ok (some 0)] := by
    rw [show List.foldl _ _ _ = now from rfl, hanswers] at hrs
    cases hrs
    rfl
  refine ⟨hanswers, ?_, hrates⟩
  rw [hnew] at hcycles
  exact hcycles

end Bench

end Famicom
