import Famicom.Proofs.Cpu.Reduction
import Famicom.Proofs.Cpu.WholeStep

/-! # Addresses in numbers

The cells of a full memory have numbers, and what a cell holds is a number as well (`Memory.peek`).
Each mode has a rule for the number of the cell that it leads to: a base, which stands in the
instruction or is looked up, an index, and the count of the cells that may be reached
(`Mode.reckoned?`).  This is the effective address (`Mode.toNat_effectiveAddress`), whatever the
memory holds and wherever the program counter, a pointer or a sum comes to the end of its range.

`Cpu.step_located` finds it in the accesses of a step: the instruction bytes, then the pointer, then
the cell, unless the step goes on there.  A branch goes on at a distance or behind itself. -/

namespace Famicom

open Unbounded (Flag)

/-! ### Numbers of cells -/

namespace Memory

variable (m : FullMemory)

/-- What the cell with a number holds; cells are counted modulo 65536. -/
def peek (k : Nat) : Nat := (m.busRead (BitVec.ofNat 16 k)).toNat

/-- The access by which an instruction byte is fetched from the cell with a number. -/
def fetchOf (k : Nat) : Access := .fetch (BitVec.ofNat 16 k) (m.busRead (BitVec.ofNat 16 k))

/-- The access by which the cell with a number is read. -/
def readOf (k : Nat) : Access := .read (BitVec.ofNat 16 k) (m.busRead (BitVec.ofNat 16 k))

theorem peek_toNat (a : Word) : m.peek a.toNat = (m.busRead a).toNat := by
  rw [peek, BitVec.ofNat_toNat, BitVec.setWidth_eq]

theorem readOf_toNat (a : Word) : m.readOf a.toNat = .read a (m.busRead a) := by
  rw [readOf, BitVec.ofNat_toNat, BitVec.setWidth_eq]

theorem peek_toNat_add (a : Word) (k : Nat) :
    m.peek (a.toNat + k) = (m.busRead (a + BitVec.ofNat 16 k)).toNat := by
  rw [peek, BitVec.ofNat_add, BitVec.ofNat_toNat, BitVec.setWidth_eq]

theorem fetchOf_toNat_add (a : Word) (k : Nat) :
    m.fetchOf (a.toNat + k) =
      .fetch (a + BitVec.ofNat 16 k) (m.busRead (a + BitVec.ofNat 16 k)) := by
  rw [fetchOf, BitVec.ofNat_add, BitVec.ofNat_toNat, BitVec.setWidth_eq]

end Memory

theorem fetches_eq_map (m : FullMemory) (pc : Word) (n : Nat) :
    fetches m.busRead pc n = (List.range n).map fun k => m.fetchOf (pc.toNat + k) := by
  induction n generalizing pc with
  | zero => rfl
  | succ n ih =>
      have hnext : ∀ k, m.fetchOf ((pc + 1).toNat + k) = m.fetchOf (pc.toNat + (k + 1)) := by
        intro k
        rw [m.fetchOf_toNat_add, m.fetchOf_toNat_add, Nat.add_comm k 1, BitVec.ofNat_add,
          ← BitVec.add_assoc]
        rfl
      have hfirst : m.fetchOf (pc.toNat + 0) = .fetch pc (m.busRead pc) := by
        rw [m.fetchOf_toNat_add]
        simp
      rw [fetches, ih, List.range_succ_eq_map, List.map_cons, List.map_map, hfirst]
      exact congrArg _ (List.map_congr_left fun k _ => hnext k)

theorem Word.toNat_add_index (a : Word) (b : Byte) :
    (a + b.setWidth 16).toNat = (a.toNat + b.toNat) % 0x10000 := by
  simp [BitVec.toNat_add]

theorem Word.crossesPage_eq (v w : Word) :
    v.crossesPage w = decide (v.toNat / 256 ≠ w.toNat / 256) := by
  rw [← toNat_high, ← toNat_high, crossesPage, Bool.eq_iff_iff, decide_eq_true_iff, bne_iff_ne,
    ne_eq, ne_eq, BitVec.toNat_inj]

theorem Word.toNat_zeroPage (offset : Byte) : (zeroPage offset).toNat = offset.toNat := by
  rw [zeroPage, toNat_ofBytes]
  exact Nat.zero_add _

theorem Word.toNat_nextInPage (a : Word) :
    a.nextInPage.toNat = a.toNat / 256 * 256 + (a.toNat + 1) % 256 := by
  rw [nextInPage, toNat_ofBytes, toNat_high, BitVec.toNat_add, toNat_low]
  show _ + (_ + 1) % 256 = _
  omega

theorem toNat_pointerAt (m : FullMemory) (a : Word) :
    (pointerAt m.busRead a).toNat = m.peek a.toNat + 256 * m.peek a.nextInPage.toNat := by
  rw [pointerAt, Word.toNat_ofBytes, m.peek_toNat, m.peek_toNat]
  omega

/-! ### The rules -/

namespace Mode

/-- Whether a mode leads to a cell. -/
def hasAddress : Mode → Bool
  | accumulator | implied | immediate | relative => false
  | _ => true

section
variable (peek : Nat → Nat) (pc x y : Nat)

/-- The cells where a mode looks up the low and the high byte of an address, if it does: `lo` and
`hi` are the bytes behind the opcode. -/
def pointerCells? : Mode → Option (Nat × Nat) :=
  let lo := peek (pc + 1)
  let hi := peek (pc + 2)
  let p := lo + 256 * hi
  fun
  | indirect => some (p, p / 256 * 256 + (p + 1) % 256)
  | indirectX => some ((lo + x) % 256, (lo + x + 1) % 256)
  | indirectY => some (lo, (lo + 1) % 256)
  | _ => none

/-- The address that a mode adds its index to, if it has an address. -/
def base? : Mode → Option Nat :=
  let lo := peek (pc + 1)
  let hi := peek (pc + 2)
  fun
  | accumulator | implied | immediate | relative => none
  | zeroPage | zeroPageX | zeroPageY => some lo
  | absolute | absoluteX | absoluteY => some (lo + 256 * hi)
  | mode => (mode.pointerCells? peek pc x).map fun (low, high) => peek low + 256 * peek high

/-- What a mode adds to the address. -/
def index : Mode → Nat
  | zeroPageX | absoluteX => x
  | zeroPageY | absoluteY | indirectY => y
  | _ => 0

/-- The number of cells that a mode can lead to: behind the last of them comes the first. -/
def reach : Mode → Nat
  | zeroPage | zeroPageX | zeroPageY => 256
  | _ => 0x10000

/-- The number of the cell that a mode leads to, if it leads to one. -/
def reckoned? (mode : Mode) : Option Nat :=
  (mode.base? peek pc x).map fun base => (base + mode.index x y) % mode.reach

/-- Whether the cell that a mode leads to is in another page than the address it adds its index
to. -/
def leavesPage (mode : Mode) : Bool :=
  (mode.base? peek pc x).any fun base => base / 256 ≠ (base + mode.index x y) % mode.reach / 256

end

section
variable (cpu : Cpu) (m : FullMemory) (mode : Mode)

theorem peek_next : m.peek (cpu.pc.toNat + 1) = (m.busRead (cpu.pc + 1)).toNat :=
  m.peek_toNat_add cpu.pc 1

theorem peek_afterNext : m.peek (cpu.pc.toNat + 2) = (m.busRead (cpu.pc + 2)).toNat :=
  m.peek_toNat_add cpu.pc 2

theorem toNat_word : (Word.ofBytes (m.busRead (cpu.pc + 2)) (m.busRead (cpu.pc + 1))).toNat =
    m.peek (cpu.pc.toNat + 1) + 256 * m.peek (cpu.pc.toNat + 2) := by
  rw [Word.toNat_ofBytes, peek_next, peek_afterNext]
  omega

/-- The pointer of a mode, in numbers. -/
theorem pointerCells?_eq : mode.pointerCells? m.peek cpu.pc.toNat cpu.x.toNat =
    (mode.pointer? cpu m.busRead).map fun a => (a.toNat, a.nextInPage.toNat) := by
  cases mode with
  | indirect =>
      rw [pointer?, Option.map_some, Word.toNat_nextInPage, toNat_word]
      rfl
  | indirectX =>
      have hsum : (Word.zeroPage (m.busRead (cpu.pc + 1) + cpu.x)).toNat =
          (m.peek (cpu.pc.toNat + 1) + cpu.x.toNat) % 256 := by
        rw [Word.toNat_zeroPage, BitVec.toNat_add, peek_next]
      have hnext (n : Nat) : n % 256 / 256 * 256 + (n % 256 + 1) % 256 = (n + 1) % 256 := by omega
      rw [pointer?, Option.map_some, Word.toNat_nextInPage, hsum, hnext]
      rfl
  | indirectY =>
      have hlt := (m.busRead (cpu.pc + 1)).isLt
      have hnext (n : Nat) (h : n < 256) : n / 256 * 256 + (n + 1) % 256 = (n + 1) % 256 := by omega
      rw [pointer?, Option.map_some, Word.toNat_nextInPage, Word.toNat_zeroPage, hnext _ hlt,
        ← peek_next]
      rfl
  | _ => rfl

theorem hasAddress_of_effectiveAddress {a : Word}
    (h : mode.effectiveAddress? cpu m.busRead = some a) : mode.hasAddress := by
  cases mode <;> first | rfl | cases h

theorem base?_of_pointer {a : Word} (ha : mode.pointer? cpu m.busRead = some a) :
    mode.base? m.peek cpu.pc.toNat cpu.x.toNat = some (pointerAt m.busRead a).toNat := by
  have hbase : mode.base? m.peek cpu.pc.toNat cpu.x.toNat =
      (mode.pointerCells? m.peek cpu.pc.toNat cpu.x.toNat).map
        fun (low, high) => m.peek low + 256 * m.peek high := by
    cases mode with
    | indirect | indirectX | indirectY => rfl
    | _ => cases ha
  rw [hbase, pointerCells?_eq, ha, toNat_pointerAt]
  rfl

theorem base?_of_word (hmode : mode = .absolute ∨ mode = .absoluteX ∨ mode = .absoluteY) :
    mode.base? m.peek cpu.pc.toNat cpu.x.toNat =
      some (Word.ofBytes (m.busRead (cpu.pc + 2)) (m.busRead (cpu.pc + 1))).toNat := by
  rw [toNat_word]
  rcases hmode with rfl | rfl | rfl <;> rfl

/-- The accesses of an instruction until it knows its operand: the instruction bytes, and then the
address that is looked up. -/
def way (m : FullMemory) (pc x : Nat) (mode : Mode) : List Access :=
  (List.range mode.instructionSize).map (fun k => m.fetchOf (pc + k)) ++
    (mode.pointerCells? m.peek pc x).elim [] fun (low, high) => [m.readOf low, m.readOf high]

theorem operandAccesses_eq :
    .fetch cpu.pc (m.busRead cpu.pc) :: mode.operandAccesses cpu m.busRead =
      mode.way m cpu.pc.toNat cpu.x.toNat := by
  have hfetches : .fetch cpu.pc (m.busRead cpu.pc) ::
      fetches m.busRead (cpu.pc + 1) (mode.instructionSize - 1) =
        fetches m.busRead cpu.pc mode.instructionSize := by
    cases mode <;> rfl
  have hpointer : (mode.pointer? cpu m.busRead).elim [] (pointerReads m.busRead) =
      (mode.pointerCells? m.peek cpu.pc.toNat cpu.x.toNat).elim []
        fun (low, high) => [m.readOf low, m.readOf high] := by
    rw [pointerCells?_eq]
    cases mode.pointer? cpu m.busRead with
    | none => rfl
    | some a => simp only [Option.map_some, Option.elim_some, m.readOf_toNat, pointerReads]
  rw [operandAccesses, ← List.cons_append, hfetches, fetches_eq_map, hpointer, way]

/-- **The effective address**, in numbers. -/
theorem toNat_effectiveAddress : (mode.effectiveAddress? cpu m.busRead).map BitVec.toNat =
    mode.reckoned? m.peek cpu.pc.toNat cpu.x.toNat cpu.y.toNat := by
  have hplain : ∀ a : Word, a.toNat = (a.toNat + 0) % 0x10000 := fun a =>
    (Nat.mod_eq_of_lt a.isLt).symm
  cases mode with
  | accumulator | implied | immediate | relative => rfl
  | zeroPage =>
      have hlt := (m.busRead (cpu.pc + 1)).isLt
      rw [effectiveAddress?, reckoned?, base?, Option.map_some, Option.map_some, peek_next,
        Word.toNat_zeroPage]
      exact congrArg some (Nat.mod_eq_of_lt hlt).symm
  | zeroPageX | zeroPageY =>
      rw [effectiveAddress?, reckoned?, base?, Option.map_some, Option.map_some, peek_next,
        Word.toNat_zeroPage]
      rfl
  | absolute =>
      rw [reckoned?, base?_of_word cpu m _ (by simp)]
      exact congrArg some (hplain _)
  | absoluteX | absoluteY =>
      rw [reckoned?, base?_of_word cpu m _ (by simp)]
      exact congrArg some (Word.toNat_add_index _ _)
  | indirect | indirectX =>
      rw [reckoned?, base?_of_pointer cpu m _ rfl]
      exact congrArg some (hplain _)
  | indirectY =>
      rw [reckoned?, base?_of_pointer cpu m _ rfl]
      exact congrArg some (Word.toNat_add_index _ _)

/-- A mode is known to have left the page just if it has. -/
theorem crossed_operandAt : (mode.operandAt cpu m.busRead).crossed =
    mode.leavesPage m.peek cpu.pc.toNat cpu.x.toNat cpu.y.toNat := by
  have hstay : ∀ a : Word, a.toNat / 256 = (a.toNat + 0) % 0x10000 / 256 := by
    intro a
    rw [Nat.add_zero, Nat.mod_eq_of_lt a.isLt]
  have hindexed : ∀ (a : Word) (b : Byte), (Operand.indexed a b).crossed =
      decide (a.toNat / 256 ≠ (a.toNat + b.toNat) % 0x10000 / 256) := by
    intro a b
    rw [← Word.toNat_add_index, ← Word.crossesPage_eq]
    rfl
  cases mode with
  | accumulator | implied | immediate | relative => rfl
  | zeroPage | zeroPageX | zeroPageY =>
      have hlt := (m.busRead (cpu.pc + 1)).isLt
      refine (decide_eq_false (not_not.mpr ?_)).symm
      rw [peek_next]
      simp only [index, reach]
      omega
  | absolute =>
      rw [leavesPage, base?_of_word cpu m _ (by simp)]
      exact (decide_eq_false (not_not.mpr (hstay _))).symm
  | indirect | indirectX =>
      rw [leavesPage, base?_of_pointer cpu m _ rfl]
      exact (decide_eq_false (not_not.mpr (hstay _))).symm
  | absoluteX | absoluteY =>
      rw [leavesPage, base?_of_word cpu m _ (by simp)]
      exact hindexed _ _
  | indirectY =>
      rw [leavesPage, base?_of_pointer cpu m _ rfl]
      exact hindexed _ _

end

end Mode

/-! ### Branches -/

/-- The number that a byte stands for if its highest bit is a sign. -/
def branchDistance (n : Nat) : Int := if n < 128 then n else n - 256

theorem toNat_branchTarget (pc : Word) (distance : Byte) :
    ((branchTarget pc distance).toNat : Int) =
      (pc.toNat + branchDistance distance.toNat) % 0x10000 := by
  have hlt := distance.isLt
  rw [branchTarget, BitVec.toNat_add, Unbounded.toNat_signExtend, branchDistance]
  split <;> omega

namespace Mnemonic

/-- The flag that a branch looks at, and the value that it must have. -/
def branchesIf? : Mnemonic → Option (Flag × Bool)
  | bpl => some (.negative, false)
  | bmi => some (.negative, true)
  | bvc => some (.overflow, false)
  | bvs => some (.overflow, true)
  | bcc => some (.carry, false)
  | bcs => some (.carry, true)
  | bne => some (.zero, false)
  | beq => some (.zero, true)
  | _ => none

theorem operation_of_branchesIf {m : Mnemonic} {flag : Flag} {value : Bool}
    (h : m.branchesIf? = some (flag, value)) :
    m.operation = .branch fun f => flag.get f == value := by
  cases m <;> cases h <;>
    exact congrArg Operation.branch (funext fun f => by simp [Flag.get])

end Mnemonic

/-! ### Steps -/

/-- Whether an operation works on a cell if its operand is one. -/
def Operation.hasCell : Operation → Bool
  | load _ | store _ | alter _ _ | skip | jump | call => true
  | _ => false

/-- A step whose operation began with the given processor and memory has worked on the cell at an
address: `xs` are the accesses that it has made when the address was known. -/
def Operation.WorksOn (e : Word) (c : Cpu) (m : FullMemory) (o : Outcome (Option Nat) FullMemory)
    (xs : List Access) : Operation → Prop
  | load effect =>
    xs = [.read e (m.busRead e)] ∧ o.bus = m ∧ ∃ n, o.cpu = (effect (m.busRead e) c).later n
  | store value => xs = [.write e (value c)] ∧ o.bus = m.busWrite e (value c)
  | alter change _ =>
    let d := (change (m.busRead e) c.flags).1
    xs = [.read e (m.busRead e), .write e d] ∧ o.bus = m.busWrite e d
  | skip => xs = [] ∧ o.bus = m
  | jump => xs = [] ∧ o.bus = m ∧ o.cpu.pc = e
  | call => o.cpu.pc = e
  | _ => False

namespace Instruction

/-- The instructions with a distance are the branches, and those with an address work on a cell. -/
theorem operand_of_decode {opcode : Byte} {i : Instruction} (h : decode opcode = some i) :
    (i.mode = .relative ↔ i.mnemonic.branchesIf?.isSome) ∧
      (i.mode.hasAddress → i.mnemonic.operation.hasCell) := by
  refine of_decode (P := fun i => (i.mode = .relative ↔ i.mnemonic.branchesIf?.isSome) ∧
    (i.mode.hasAddress → i.mnemonic.operation.hasCell)) ?_ h
  decide +kernel

/-- What a step shows of the way to its operand: first come the accesses of the way, and then the
operation works on the cell it has led to, or goes on at a distance. -/
structure Located (i : Instruction) (start : Cpu) (m : FullMemory)
    (o : Outcome (Option Nat) FullMemory) : Prop where
  cell : ∃ xs, o.accesses = i.mode.way m start.pc.toNat start.x.toNat ++ xs ∧
      ∀ e, i.mode.reckoned? m.peek start.pc.toNat start.x.toNat start.y.toNat = some e →
        i.mnemonic.operation.WorksOn (BitVec.ofNat 16 e) (start.past i.mode) m o xs
  relative : i.mode = .relative → ∃ flag value,
    i.mnemonic.branchesIf? = some (flag, value) ∧
      (o.cpu.pc.toNat : Int) = (start.pc.toNat + 2 + if flag.get start.flags = value then
        branchDistance (m.peek (start.pc.toNat + 1)) else 0) % 0x10000 ∧
      (o.result = .ok (some i.baseCycles) ↔ flag.get start.flags ≠ value)

end Instruction

theorem Operation.worksOn_performed {op : Operation} (hop : op.hasCell) {operand : Operand}
    {e : Word} (he : operand.address? = some e) (c : Cpu) (m : FullMemory) (n : Nat)
    (r : Except Fault (Option Nat)) (xs : List Access) :
    let p := op.performed operand c m
    op.WorksOn e c m ⟨r, p.cpu.later n, p.memory, xs⟩ p.accesses := by
  obtain ⟨crossed, rfl⟩ := Operand.eq_cell_of_address? he
  cases op with
  | load _ => exact ⟨rfl, rfl, n, rfl⟩
  | store _ | alter _ _ | skip => exact ⟨rfl, rfl⟩
  | jump => exact ⟨rfl, rfl, rfl⟩
  | call => exact rfl
  | _ => cases hop

namespace Cpu

section
variable {i : Instruction} {taken : Flags → Bool}

theorem cyclesOf_of_branch (h : i.mnemonic.operation = .branch taken) (o : Operand) (k : Nat) :
    cyclesOf i o k = i.baseCycles + k := by
  simp [cyclesOf, Instruction.paysForPage, h, Operation.paysForPage]

theorem added_branch (h : i.mnemonic.operation = .branch taken) (o : Operand) (c : Cpu)
    (m : FullMemory) : (i.mnemonic.operation.performed o c m).added =
      if taken c.flags then branchCycles c.pc (branchTarget c.pc (o.byte c.a m.busRead)) else 0 := by
  rw [h, Operation.performed]

end

theorem toNat_pc_past_relative (cpu : Cpu) :
    ((cpu.past .relative).pc.toNat : Int) = (cpu.pc.toNat + 2) % 0x10000 := by
  simp [past, Mode.instructionSize, BitVec.toNat_add]

/-- Where a branch leads, in numbers. -/
theorem toNat_pc_branch (cpu : Cpu) (m : FullMemory) (taken : Flags → Bool) :
    (((Operation.branch taken).performed (Mode.relative.operandAt cpu m.busRead)
      (cpu.past .relative) m).cpu.pc.toNat : Int) =
        (cpu.pc.toNat + 2 + if taken cpu.flags then
          branchDistance (m.peek (cpu.pc.toNat + 1)) else 0) % 0x10000 := by
  have hpast := toNat_pc_past_relative cpu
  show ((if taken cpu.flags then _ else _ : Cpu).pc.toNat : Int) = _
  by_cases h : taken cpu.flags = true
  · rw [if_pos h, if_pos h, Mode.peek_next]
    refine (toNat_branchTarget _ _).trans ?_
    rw [hpast, Int.emod_add_emod]
    rfl
  · rw [if_neg h, if_neg h, hpast, Int.add_zero]

/-- **Where the operand of an instruction is**, in numbers. -/
theorem step_located (cpu : Cpu) (m : FullMemory) {n : Nat}
    (h : (step.run cpu m).result = .ok (some n)) :
    ∃ i, Instruction.decode (m.busRead cpu.pc) = some i ∧ i.Located cpu m (step.run cpu m) := by
  obtain ⟨i, hd, hgo⟩ := exists_instruction_of_completed h
  obtain ⟨hbranches, hcells⟩ := Instruction.operand_of_decode hd
  refine ⟨i, hd, ?_⟩
  rw [step_performed hd hgo]
  let p := i.mnemonic.operation.performed (i.mode.operandAt cpu m.busRead) (cpu.past i.mode) m
  constructor
  · refine ⟨p.accesses, ?_, ?_⟩
    · rw [← List.cons_append, Mode.operandAccesses_eq]
    · intro e he
      rw [← Mode.toNat_effectiveAddress, Option.map_eq_some_iff] at he
      obtain ⟨a, ha, rfl⟩ := he
      have hop := hcells (Mode.hasAddress_of_effectiveAddress cpu m _ ha)
      have hoperand := (Mode.address?_operandAt cpu m.busRead i.mode).trans ha
      rw [BitVec.ofNat_toNat, BitVec.setWidth_eq]
      exact Operation.worksOn_performed hop hoperand _ m _ _ _
  · intro hmode
    obtain ⟨⟨flag, value⟩, hb⟩ := Option.isSome_iff_exists.mp (hbranches.mp hmode)
    have hbranch := Mnemonic.operation_of_branchesIf hb
    refine ⟨flag, value, hb, ?_, ?_⟩
    · rw [hbranch, hmode]
      refine (toNat_pc_branch cpu m _).trans ?_
      simp only [beq_iff_eq]
    · show Except.ok (some (cyclesOf i _ p.added)) = _ ↔ _
      rw [cyclesOf_of_branch hbranch, Except.ok.injEq, Option.some_inj, Nat.add_eq_left,
        show p.added = _ from added_branch hbranch _ _ _]
      simp [branchCycles, past]

/-- There are such steps: here the instruction, the pointer and the sum all come to the end of their
ranges. -/
theorem step_located_indirectY :
    ∃ (m : FullMemory) (start : Cpu), start.pc = 0xFFFF ∧ start.y = 0xFF ∧
      m.busRead 0xFFFF = 0xB1 ∧ m.busRead 0 = 0xFF ∧ m.busRead 0xFF = 0x80 ∧
        let o := step.run start m
        o.result = .ok (some 6) ∧
          ∃ i, Instruction.decode (m.busRead start.pc) = some i ∧ i.Located start m o ∧
            i.mode.reckoned? m.peek start.pc.toNat start.x.toNat start.y.toNat = some 0x7F := by
  obtain ⟨m, hop, hlo, hlow⟩ : ∃ m : FullMemory,
      m.busRead 0xFFFF = 0xB1 ∧ m.busRead 0 = 0xFF ∧ m.busRead 0xFF = 0x80 := by
    refine ⟨.ofFn fun i => if i = 0xFFFF then 0xB1 else if i = 0 then 0xFF else 0x80, ?_⟩
    simp only [Memory.busRead_ofFn]
    decide
  obtain ⟨start, hpc, hy⟩ : ∃ start : Cpu, start.pc = 0xFFFF ∧ start.y = 0xFF :=
    ⟨{ pc := 0xFFFF, y := 0xFF }, rfl, rfl⟩
  have hd : Instruction.decode (m.busRead start.pc) = some ⟨.lda, .indirectY, true⟩ := by
    rw [hpc, hop]
    decide
  have hpointer : Mode.indirectY.pointer? start m.busRead = some 0xFF := by
    rw [Mode.pointer?, hpc, show (0xFFFF : Word) + 1 = 0 from rfl, hlo]
    rfl
  have hbase : Mode.indirectY.base? m.peek start.pc.toNat start.x.toNat = some 0xFF80 := by
    rw [Mode.base?_of_pointer start m _ hpointer, pointerAt, hlow,
      show (0xFF : Word).nextInPage = 0 from rfl, hlo]
    rfl
  have hresult : (step.run start m).result = .ok (some 6) := by
    rw [step_performed hd (not_halt_of_decode hd (by decide))]
    show Except.ok (some (5 + 0 + (true && Operand.crossed _).toNat)) = _
    rw [Mode.crossed_operandAt, Mode.leavesPage, hbase, hy]
    simp [Mode.index, Mode.reach]
  obtain ⟨i, hi, hlocated⟩ := step_located _ m hresult
  refine ⟨m, start, hpc, hy, hop, hlo, hlow, hresult, i, hi, hlocated, ?_⟩
  rw [hd] at hi
  cases hi
  rw [Mode.reckoned?, hbase, hy]
  simp [Mode.index, Mode.reach]

end Cpu

end Famicom
