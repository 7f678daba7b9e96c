import Famicom.Proofs.Cpu.Reduction
import Famicom.Proofs.Cpu.WholeStep

/-! # What an instruction leaves alone

Each instruction has its registers, its flags and its cells of memory, and all others are after it
what they were before (`Instruction.Frame`).  Which ones it has is told by the mnemonic; only the
shifts do one thing in the accumulator and another in memory.

An operation keeps a part of the processor if nothing that it does touches this part
(`Operation.Keeps`), whatever its operand is (`Operation.Keeps.performed`).  So what remains for the
registers and flags is a look at the mnemonics (`Mnemonic.keeps`), and for the memory a list of the
cells that an operation writes (`Operation.cells`).  `Cpu.step_frame` is the frame of a step. -/

namespace Famicom

open Unbounded (Flag)

/-! ### Parts of the processor -/

/-- What a processor consists of, its count of cycles apart. -/
inductive Cpu.Part where
  | a | x | y | sp | pc | breakHalts
  | flag (flag : Flag)
deriving Repr, DecidableEq

namespace Cpu.Part

/-- What a part can hold. -/
def Value : Part → Type
  | a | x | y | sp => Byte
  | pc => Word
  | breakHalts | flag _ => Bool

/-- What a part holds. -/
def view : (part : Part) → Cpu → part.Value
  | a => Cpu.a
  | x => Cpu.x
  | y => Cpu.y
  | sp => Cpu.sp
  | pc => Cpu.pc
  | breakHalts => Cpu.breakHalts
  | flag f => fun c => f.get c.flags

theorem view_later (part : Part) (n : Nat) (c : Cpu) : part.view (c.later n) = part.view c := by
  cases part <;> rfl

end Cpu.Part

/-! ### What may change -/

namespace Mnemonic

/-- The flags that an instruction may change. -/
def flagsChanged : Mnemonic → List Flag
  | lda | ldx | ldy | lax | tax | tay | tsx | txa | tya | and | ora | eor | inc | inx | iny | dec
  | dex | dey | pla => [.negative, .zero]
  | asl | lsr | rol | ror | cmp | cpx | cpy | dcp | slo | rla | sre => [.negative, .zero, .carry]
  | adc | sbc | isc | rra => [.negative, .overflow, .zero, .carry]
  | bit => [.negative, .overflow, .zero]
  | brk | cli | sei => [.interruptDisable]
  | clc | sec => [.carry]
  | cld | sed => [.decimal]
  | clv => [.overflow]
  | plp | rti =>
    [.carry, .zero, .interruptDisable, .decimal, .brk, .unused, .overflow, .negative]
  | sta | stx | sty | aax | bcc | bcs | beq | bmi | bne | bpl | bvc | bvs | jmp | jsr | rts | pha
  | php | txs | nop | skb | skw => []

/-- An instruction may change a part of the processor, whatever its operand is. -/
def MayChange (m : Mnemonic) : Cpu.Part → Prop
  | .a => m ∈ [adc, sbc, and, ora, eor, lda, lax, pla, txa, tya, isc, slo, rla, sre, rra]
  | .x => m ∈ [ldx, lax, tax, tsx, inx, dex]
  | .y => m ∈ [ldy, tay, iny, dey]
  | .sp => m ∈ [pha, php, pla, plp, jsr, rts, rti, brk, txs]
  | .pc => m ∈ [bcc, bcs, beq, bmi, bne, bpl, bvc, bvs, jmp, jsr, rts, rti, brk]
  | .breakHalts => False
  | .flag f => f ∈ m.flagsChanged

instance (m : Mnemonic) : (part : Cpu.Part) → Decidable (m.MayChange part)
  | .a | .x | .y | .sp | .pc => inferInstanceAs (Decidable (m ∈ _))
  | .breakHalts => inferInstanceAs (Decidable False)
  | .flag f => inferInstanceAs (Decidable (f ∈ m.flagsChanged))

/-- The shifts that can be made in the accumulator. -/
def shifts : List Mnemonic := [asl, lsr, rol, ror]

end Mnemonic

namespace Instruction

/-- An instruction may change a part of the processor. -/
def MayChange (i : Instruction) (part : Cpu.Part) : Prop :=
  i.mnemonic.MayChange part ∨
    part = .a ∧ i.mode = .accumulator ∧ i.mnemonic ∈ Mnemonic.shifts

instance (i : Instruction) (part : Cpu.Part) : Decidable (i.MayChange part) :=
  inferInstanceAs (Decidable (_ ∨ _))

/-- The cells that an instruction may change if it begins in the given state. -/
def cellsChanged (i : Instruction) (start : Cpu) (memory : Word → Byte) : List Word :=
  match i.mnemonic with
  | .sta | .stx | .sty | .aax | .asl | .lsr | .rol | .ror | .inc | .dec | .dcp | .isc | .slo
  | .rla | .sre | .rra => (i.mode.effectiveAddress? start memory).toList
  | .pha | .php => stackCells start.sp 1
  | .jsr => stackCells start.sp 2
  | .brk => stackCells start.sp 3
  | _ => []

/-- What an instruction leaves alone: all other cells of memory and all other parts of the
processor, which stands behind the instruction if it has not gone elsewhere. -/
structure Frame (i : Instruction) (start : Cpu) (memory : FullMemory)
    (o : Outcome (Option Nat) FullMemory) : Prop where
  memory : ∀ a ∉ i.cellsChanged start memory.busRead, o.bus.busRead a = memory.busRead a
  parts : ∀ part, ¬ i.MayChange part → part.view o.cpu = part.view (start.past i.mode)

end Instruction

/-! ### Operations -/

namespace Operand

variable {o : Operand} {b : Byte} {c : Cpu} {m : FullMemory}

theorem view_storedCpu {α : Type} {v : Cpu → α}
    (hv : o = .accumulator → ∀ b c, v { c with a := b } = v c) :
    v (o.storedCpu b c) = v c := by
  cases o with
  | accumulator => exact hv rfl b c
  | none | value _ | cell _ _ => rfl

theorem busRead_storedMemory {a : Word} (ha : a ∉ o.address?.toList) :
    (o.storedMemory b m).busRead a = m.busRead a := by
  cases o with
  | none | accumulator | value _ => rfl
  | cell e crossed =>
      have hne : a ≠ e := by simpa [address?] using ha
      exact Memory.busRead_busWrite_ne m b (Ne.symm hne)

end Operand

namespace Operation

section
variable {α : Type}

/-- What is viewed of the processor is touched by nothing that an operation does, unless its operand
is the accumulator. -/
def Keeps (v : Cpu → α) : Operation → Prop
  | load effect => ∀ b c, v (effect b c) = v c
  | alter change effect =>
    (∀ b c, v (effect b c) = v c) ∧ ∀ b c, v { c with flags := (change b c.flags).2 } = v c
  | internal effect => ∀ c, v (effect c) = v c
  | store _ | skip => True
  | branch _ | jump => ∀ c pc, v { c with pc } = v c
  | push _ => ∀ c sp, v { c with sp } = v c
  | pull effect => ∀ b c sp, v (effect b { c with sp }) = v c
  | call | returnFromCall => ∀ c sp pc, v { c with sp, pc } = v c
  | returnFromInterrupt => ∀ b c sp pc, v { c with sp, pc, flags := .pulled b } = v c
  | softwareInterrupt =>
    ∀ c sp pc, v { c with sp, pc, flags := { c.flags with interruptDisable := true } } = v c

variable {v : Cpu → α} {op : Operation} {o : Operand} {c : Cpu} {m : FullMemory}

theorem Keeps.performed (h : op.Keeps v)
    (ho : o = .accumulator → ∀ b c, v { c with a := b } = v c) :
    v (op.performed o c m).cpu = v c := by
  cases op with
  | load effect => exact h _ c
  | store value => exact Operand.view_storedCpu ho
  | alter change effect =>
      calc v (effect _ (o.storedCpu _ { c with flags := (change _ c.flags).2 }))
        _ = v (o.storedCpu _ { c with flags := (change _ c.flags).2 }) := h.1 _ _
        _ = v { c with flags := (change _ c.flags).2 } := Operand.view_storedCpu ho
        _ = v c := h.2 _ c
  | skip => rfl
  | internal effect => exact h c
  | branch taken =>
      show v (if taken c.flags then _ else c) = v c
      split
      · exact h c _
      · rfl
  | push value => exact h c _
  | pull effect => exact h _ c _
  | jump => exact h c _
  | call | returnFromCall => exact h c _ _
  | returnFromInterrupt => exact h _ c _ _
  | softwareInterrupt => exact h c _ _

end

/-- The cells that an operation may write. -/
def cells (o : Operand) (sp : Byte) : Operation → List Word
  | store _ | alter _ _ => o.address?.toList
  | push _ => stackCells sp 1
  | call => stackCells sp 2
  | softwareInterrupt => stackCells sp 3
  | _ => []

theorem busRead_performed {op : Operation} {o : Operand} {c : Cpu} {m : FullMemory} {a : Word}
    (ha : a ∉ op.cells o c.sp) : (op.performed o c m).memory.busRead a = m.busRead a := by
  cases op with
  | store _ | alter _ _ => exact Operand.busRead_storedMemory ha
  | push _ | call | softwareInterrupt => exact Memory.busRead_pushed_of_notMem ha
  | load _ | skip | internal _ | branch _ | pull _ | jump | returnFromCall
  | returnFromInterrupt => rfl

end Operation

/-! ### Mnemonics -/

/-- What an instruction may not change is kept by its operation. -/
theorem Mnemonic.keeps {m : Mnemonic} {part : Cpu.Part} (h : ¬ m.MayChange part) :
    m.operation.Keeps part.view := by
  -- what is kept is kept by definition, for as many bytes and addresses as the operation deals with
  rcases part with _ | _ | _ | _ | _ | _ | (_ | _ | _ | _ | _ | _ | _ | _) <;> cases m <;> first
    | exact absurd (by decide) h
    | exact trivial
    | exact fun _ => rfl
    | exact fun _ _ => rfl
    | exact fun _ _ _ => rfl
    | exact fun _ _ _ _ => rfl
    | exact ⟨fun _ _ => rfl, fun _ _ => rfl⟩

namespace Instruction

variable {i : Instruction} {cpu : Cpu} {m : FullMemory}

theorem cellsChanged_eq (i : Instruction) (start : Cpu) (memory : Word → Byte) :
    i.cellsChanged start memory =
      i.mnemonic.operation.cells (i.mode.operandAt start memory) start.sp := by
  rcases i with ⟨mnemonic, mode, documented⟩
  cases mnemonic <;> simp [cellsChanged, Mnemonic.operation, Operation.cells,
    Mode.address?_operandAt]

/-- Only shifts are made in the accumulator. -/
theorem isShift_of_decode {opcode : Byte} (hd : decode opcode = some i)
    (hi : i.mode = .accumulator) : i.mnemonic ∈ Mnemonic.shifts := by
  refine of_decode (P := fun i => i.mode = .accumulator → i.mnemonic ∈ Mnemonic.shifts) ?_ hd hi
  decide +kernel

theorem mode_of_operandAt {mode : Mode} {memory : Word → Byte}
    (h : mode.operandAt cpu memory = .accumulator) : mode = .accumulator := by
  cases mode <;> first | rfl | cases h

end Instruction

/-! ### Steps -/

namespace Cpu

theorem frame_of_decode {cpu : Cpu} {m : FullMemory} {i : Instruction}
    (hd : Instruction.decode (m.busRead cpu.pc) = some i)
    (hgo : ¬ (m.busRead cpu.pc = 0 ∧ cpu.breakHalts)) : i.Frame cpu m (step.run cpu m) := by
  rw [step_performed hd hgo]
  constructor
  · intro a ha
    rw [Instruction.cellsChanged_eq] at ha
    exact Operation.busRead_performed ha
  · intro part hpart
    obtain ⟨hmnemonic, hshift⟩ := not_or.mp hpart
    rw [Part.view_later]
    refine (Mnemonic.keeps hmnemonic).performed fun ho => ?_
    have hmode := Instruction.mode_of_operandAt ho
    cases part with
    | a => exact absurd ⟨rfl, hmode, Instruction.isShift_of_decode hd hmode⟩ hshift
    | x | y | sp | pc | breakHalts | flag _ => exact fun _ _ => rfl

/-- **What a step leaves alone.** -/
theorem step_frame (cpu : Cpu) (m : FullMemory) {n : Nat}
    (h : (step.run cpu m).result = .ok (some n)) :
    ∃ i, Instruction.decode (m.busRead cpu.pc) = some i ∧ i.Frame cpu m (step.run cpu m) := by
  obtain ⟨i, hd, hgo⟩ := exists_instruction_of_completed h
  exact ⟨i, hd, frame_of_decode hd hgo⟩

/-- There are such steps: here the effective address is that of a byte of the instruction itself. -/
theorem step_frame_inc :
    ∃ m : FullMemory, m.busRead 0 = 0xE6 ∧ m.busRead 1 = 1 ∧
      let o := step.run {} m
      o.result = .ok (some 5) ∧ o.bus.busRead 1 = 2 ∧
        ∃ i, Instruction.decode (m.busRead 0) = some i ∧ i.cellsChanged {} m.busRead = [1] ∧
          i.Frame {} m o := by
  obtain ⟨m, h0, h1⟩ : ∃ m : FullMemory, m.busRead 0 = 0xE6 ∧ m.busRead 1 = 1 := by
    refine ⟨.ofFn fun i => if i = 0 then 0xE6 else 1, ?_⟩
    simp only [Memory.busRead_ofFn]
    decide
  have hd : Instruction.decode (m.busRead (Cpu.pc {})) = some ⟨.inc, .zeroPage, true⟩ := by
    rw [show Cpu.pc {} = 0 from rfl, h0]
    decide
  have hcell : Word.zeroPage (m.busRead (0 + 1)) = 1 := by
    rw [show (0 : Word) + 1 = 1 from rfl, h1]
    rfl
  have hstep := step_performed hd (not_halt_of_decode hd (by decide))
  have hresult : (step.run {} m).result = .ok (some 5) := by
    rw [hstep]
    rfl
  refine ⟨m, h0, h1, hresult, ?_, ?_⟩
  · rw [hstep]
    show (m.busWrite (.zeroPage (m.busRead (0 + 1)))
      (m.busRead (.zeroPage (m.busRead (0 + 1))) + 1)).busRead 1 = 2
    rw [hcell, Memory.busRead_busWrite_self, h1]
    rfl
  · obtain ⟨i, hi, hframe⟩ := step_frame {} m hresult
    refine ⟨i, hi, ?_, hframe⟩
    cases hd.symm.trans hi
    exact congrArg (fun a => [a]) hcell

end Cpu

end Famicom
