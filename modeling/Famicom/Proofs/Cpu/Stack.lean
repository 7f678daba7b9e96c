import Famicom.Cpu.Step
import Famicom.Proofs.FullMemory

/-! # The stack of the processor

The stack is page one: bytes go to cells with falling addresses, and below the lowest comes the
highest (`Word.cellBelow`).  `Memory.pushed` is the memory after bytes have been put there.  Up to 256
bytes lie in different cells, whatever the stack pointer was, so all of them are found again
(`Memory.busRead_pushed`); the other cells are as they were (`Memory.busRead_pushed_of_notMem`).

Then the programs that work on the stack are told as a whole, on a full memory: putting a word there
and taking one, and leading to the handler of an interrupt (`Program.run_enterHandler`). -/

namespace Famicom

/-! ### Cells -/

namespace Word

/-- The cell that lies a number of bytes below that of a stack pointer. -/
def cellBelow (sp : Byte) (k : Nat) : Word := stackCell (sp - BitVec.ofNat 8 k)

@[simp] theorem cellBelow_zero (sp : Byte) : cellBelow sp 0 = stackCell sp := by
  simp [cellBelow]

theorem cellBelow_sub (sp : Byte) (n k : Nat) :
    cellBelow (sp - BitVec.ofNat 8 n) k = cellBelow sp (n + k) := by
  rw [cellBelow, cellBelow, BitVec.ofNat_add]
  congr 1
  bv_omega

theorem cellBelow_succ (sp : Byte) (k : Nat) : cellBelow sp (k + 1) = cellBelow (sp - 1) k := by
  rw [Nat.add_comm]
  exact (cellBelow_sub sp 1 k).symm

/-- Below the lowest cell comes the highest. -/
theorem cellBelow_add_256 (sp : Byte) (k : Nat) : cellBelow sp (256 + k) = cellBelow sp k := by
  rw [← cellBelow_sub]
  simp

/-- Cells less than 256 bytes apart are different. -/
theorem cellBelow_injective {sp : Byte} {j k : Nat} (hj : j < 256) (hk : k < 256)
    (h : cellBelow sp j = cellBelow sp k) : j = k := by
  have hsp := stackCell_injective h
  have hofNat : BitVec.ofNat 8 j = BitVec.ofNat 8 k := by bv_omega
  have hvalue := congrArg BitVec.toNat hofNat
  simp only [BitVec.toNat_ofNat] at hvalue
  omega

end Word

/-- The cells from that of a stack pointer downwards. -/
def stackCells (sp : Byte) : Nat → List Word
  | 0 => []
  | n + 1 => .stackCell sp :: stackCells (sp - 1) n

theorem mem_stackCells {a : Word} {sp : Byte} {n : Nat} :
    a ∈ stackCells sp n ↔ ∃ k < n, a = .cellBelow sp k := by
  induction n generalizing sp with
  | zero => simp [stackCells]
  | succ n ih =>
      rw [stackCells, List.mem_cons, ih]
      constructor
      · rintro (rfl | ⟨k, hk, rfl⟩)
        · exact ⟨0, Nat.succ_pos n, (Word.cellBelow_zero sp).symm⟩
        · exact ⟨k + 1, Nat.succ_lt_succ hk, (Word.cellBelow_succ sp k).symm⟩
      · rintro ⟨k, hk, rfl⟩
        cases k with
        | zero => exact Or.inl (Word.cellBelow_zero sp)
        | succ k => exact Or.inr ⟨k, Nat.lt_of_succ_lt_succ hk, Word.cellBelow_succ sp k⟩

theorem high_of_mem_stackCells {a : Word} {sp : Byte} {n : Nat} (h : a ∈ stackCells sp n) :
    a.high = 1 := by
  obtain ⟨k, -, rfl⟩ := mem_stackCells.mp h
  exact Word.high_ofBytes 1 _

theorem cellBelow_notMem_stackCells {sp : Byte} {n k : Nat} (hn : n ≤ k) (hk : k < 256) :
    .cellBelow sp k ∉ stackCells sp n := by
  rw [mem_stackCells]
  rintro ⟨j, hj, h⟩
  have := Word.cellBelow_injective hk (by omega) h
  omega

namespace Memory

/-! ### Bytes put on the stack -/

/-- The memory after bytes have been put on the stack, one after the other. -/
def pushed (m : FullMemory) (sp : Byte) : List Byte → FullMemory
  | [] => m
  | d :: ds => (m.busWrite (.stackCell sp) d).pushed (sp - 1) ds

variable {m : FullMemory} {sp : Byte} {ds : List Byte}

theorem busRead_pushed_of_notMem {a : Word} (h : a ∉ stackCells sp ds.length) :
    (m.pushed sp ds).busRead a = m.busRead a := by
  induction ds generalizing m sp with
  | nil => rfl
  | cons d ds ih =>
      simp only [List.length_cons, stackCells, List.mem_cons, not_or] at h
      rw [pushed, ih h.2]
      exact busRead_busWrite_ne m d (Ne.symm h.1)

/-- The bytes are where they have been put. -/
theorem busRead_pushed (hlength : ds.length ≤ 256) {k : Nat} {d : Byte} (hd : ds[k]? = some d) :
    (m.pushed sp ds).busRead (.cellBelow sp k) = d := by
  induction ds generalizing m sp k with
  | nil => cases hd
  | cons d' ds ih =>
      rw [List.length_cons] at hlength
      cases k with
      | zero =>
          cases hd
          -- the first cell is 255 bytes below the second, and so few bytes do not follow
          have hcell : Word.cellBelow (sp - 1) 255 = .stackCell sp := by
            rw [← Word.cellBelow_succ, ← Word.cellBelow_zero sp]
            exact Word.cellBelow_add_256 sp 0
          have hout : Word.stackCell sp ∉ stackCells (sp - 1) ds.length := by
            rw [← hcell]
            exact cellBelow_notMem_stackCells (by omega) (by decide)
          rw [Word.cellBelow_zero, pushed, busRead_pushed_of_notMem hout]
          exact busRead_busWrite_self m _ d
      | succ k =>
          rw [Word.cellBelow_succ]
          exact ih (by omega) hd

end Memory

/-! ### Programs -/

/-- The accesses by which bytes are put on the stack. -/
def stackWrites (sp : Byte) : List Byte → List Access
  | [] => []
  | d :: ds => .write (.stackCell sp) d :: stackWrites (sp - 1) ds

/-- The accesses by which bytes are taken from the stack. -/
def stackReads (memory : Word → Byte) (sp : Byte) : Nat → List Access
  | 0 => []
  | n + 1 =>
    .read (.stackCell (sp + 1)) (memory (.stackCell (sp + 1))) :: stackReads memory (sp + 1) n

/-- The word at two addresses one after the other, the low byte first. -/
def wordAt (memory : Word → Byte) (a : Word) : Word := .ofBytes (memory (a + 1)) (memory a)

/-- The memory after an address and a status byte have been put on the stack. -/
def Memory.interrupted (m : FullMemory) (sp : Byte) (back : Word) (status : Byte) : FullMemory :=
  m.pushed sp [back.high, back.low, status]

namespace Program

variable (cpu : Cpu) (m : FullMemory)

theorem run_pushWord (w : Word) :
    (pushWord w).run cpu m = ⟨.ok (), { cpu with sp := cpu.sp - 2 },
      m.pushed cpu.sp [w.high, w.low], stackWrites cpu.sp [w.high, w.low]⟩ := by
  have h2 : cpu.sp - 1#8 - 1#8 = cpu.sp - 2#8 := by bv_omega
  simp [pushWord, Outcome.andThen, Memory.pushed, stackWrites, h2]

theorem run_pullWord :
    pullWord.run cpu m =
      ⟨.ok (.ofBytes (m.busRead (.stackCell (cpu.sp + 2))) (m.busRead (.stackCell (cpu.sp + 1)))),
        { cpu with sp := cpu.sp + 2 }, m, stackReads m.busRead cpu.sp 2⟩ := by
  have h2 : cpu.sp + 1#8 + 1#8 = cpu.sp + 2#8 := by bv_omega
  simp [pullWord, Outcome.andThen, Except.map, stackReads, h2]

theorem run_readWord (a : Word) :
    (readWord a).run cpu m = ⟨.ok (wordAt m.busRead a), cpu, m,
      [.read a (m.busRead a), .read (a + 1) (m.busRead (a + 1))]⟩ := by
  simp [readWord, Outcome.andThen, Except.map, wordAt]

/-- **The way to a handler.** -/
theorem run_enterHandler (vector back : Word) (status : Flags → Byte) :
    (enterHandler vector back status).run cpu m =
      let m' := m.interrupted cpu.sp back (status cpu.flags)
      ⟨.ok (),
        { cpu with
          sp := cpu.sp - 3
          pc := wordAt m'.busRead vector
          flags := { cpu.flags with interruptDisable := true } },
        m',
        stackWrites cpu.sp [back.high, back.low, status cpu.flags] ++
          [.read vector (m'.busRead vector), .read (vector + 1) (m'.busRead (vector + 1))]⟩ := by
  have h2 : cpu.sp - 1#8 - 1#8 = cpu.sp - 2#8 := by bv_omega
  have h3 : cpu.sp - 2#8 - 1#8 = cpu.sp - 3#8 := by bv_omega
  simp [enterHandler, run_pushWord, run_readWord, jumpTo, Cpu.mapFlags, Memory.interrupted,
    Memory.pushed, stackWrites, Outcome.andThen, h2, h3]

end Program

end Famicom
