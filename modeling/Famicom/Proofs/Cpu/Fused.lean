import Famicom.Proofs.Cpu.WholeStep

/-! # Fused instructions

Some of the instructions that were never documented do the work of two that were
(`Mnemonic.parts?`).  Most of them change a byte of memory and go on with the changed byte, where
the first of the two would have zero and negative tell of it.  That report is lost on the second
(`OverwritesReport`): whatever it does with the byte, it sets both flags anew.  The carry is not
lost, and it is the one that the change has left.

So a fused instruction leaves what its parts leave, one after the other on the same cell
(`Mnemonic.actOn_of_parts`).  `Cpu.fused_is_pair` says it of the steps of the processor. -/

namespace Famicom

open Flags (Change)
open Program

/-- The documented operations that an operation does at once, in their order. -/
def Mnemonic.parts? : Mnemonic → Option (Mnemonic × Mnemonic)
  | dcp => some (dec, cmp)
  | isc => some (inc, sbc)
  | slo => some (asl, ora)
  | rla => some (rol, and)
  | sre => some (lsr, eor)
  | rra => some (ror, adc)
  | lax => some (lda, tax)
  | _ => none

/-! ### Operations on a cell -/

namespace Operation

/-- Whether an index led into another page makes no difference to what is done with the cell. -/
theorem perform_cell (op : Operation) (e : Word) (crossed crossed' : Bool) :
    op.perform (.cell e crossed) = op.perform (.cell e crossed') := by
  cases op <;> rfl

end Operation

/-- Registers and memory after an operation on the cell at an address. -/
def Mnemonic.actOn (mnemonic : Mnemonic) (e : Word) (cpu : Cpu) (m : FullMemory) :
    Cpu × FullMemory :=
  let o := (mnemonic.operation.perform (.cell e false)).run cpu m
  (o.cpu, o.bus)

theorem Mnemonic.actOn_eq (mnemonic : Mnemonic) (e : Word) (cpu : Cpu) (m : FullMemory) :
    mnemonic.actOn e cpu m =
      let p := mnemonic.operation.performed (.cell e false) cpu m
      (p.cpu, p.memory) := by
  rw [actOn, Operation.run_perform_of_full]

/-! ### Two operations in one -/

/-- What zero and negative have told before makes no difference. -/
def OverwritesReport (effect : Byte → Cpu → Cpu) : Prop :=
  ∀ b r cpu, effect b (cpu.withResult r) = effect b cpu

namespace Mnemonic

variable {fused first second : Mnemonic} (e : Word) (cpu : Cpu) (m : FullMemory)

/-- A change and what is done with the changed byte are the reported change, and then what is done
with the byte that stands in the cell. -/
theorem actOn_of_change {change : Change} {effect : Byte → Cpu → Cpu}
    (hfused : fused.operation = .alter change effect)
    (hfirst : first.operation = .alter change.reported fun _ c => c)
    (hsecond : second.operation = .load effect) (heffect : OverwritesReport effect) :
    fused.actOn e cpu m = second.actOn e (first.actOn e cpu m).1 (first.actOn e cpu m).2 := by
  have hchanged := heffect (change (m.busRead e) cpu.flags).1 (change (m.busRead e) cpu.flags).1
    { cpu with flags := (change (m.busRead e) cpu.flags).2 }
  simp only [actOn_eq, hfused, hfirst, hsecond, Operation.performed, Operand.byte,
    Operand.storedCpu, Operand.storedMemory, Change.reported, Memory.busRead_busWrite_self]
  exact congrArg (·, _) hchanged.symm

/-- To load both registers is to load the one and to copy it to the other. -/
theorem actOn_lax :
    lax.actOn e cpu m = tax.actOn e (lda.actOn e cpu m).1 (lda.actOn e cpu m).2 := by
  simp only [actOn_eq]
  rfl

/-- **A fused operation does what its parts do on the same cell.** -/
theorem actOn_of_parts (h : fused.parts? = some (first, second)) :
    fused.actOn e cpu m = second.actOn e (first.actOn e cpu m).1 (first.actOn e cpu m).2 := by
  cases fused with
  | dcp | isc | slo | rla | sre | rra =>
      cases h
      -- comparing, adding and all that sets the accumulator reports on the result afterwards
      exact actOn_of_change e cpu m rfl rfl rfl fun _ _ _ => rfl
  | lax =>
      cases h
      exact actOn_lax e cpu m
  | _ => cases h

end Mnemonic

/-! ### Registers alike -/

/-- Two processors with the same registers and flags, wherever they are in the program and however
long they have been running. -/
structure Cpu.Alike (c c' : Cpu) : Prop where
  a : c.a = c'.a
  x : c.x = c'.x
  y : c.y = c'.y
  sp : c.sp = c'.sp
  flags : c.flags = c'.flags

/-- Registers and flags after the effect are told by those before it. -/
def RespectsAlike (effect : Cpu → Cpu) : Prop := ∀ c c', c.Alike c' → (effect c).Alike (effect c')

namespace Cpu

theorem Alike.symm {c c' : Cpu} (h : c.Alike c') : c'.Alike c :=
  ⟨h.a.symm, h.x.symm, h.y.symm, h.sp.symm, h.flags.symm⟩

theorem Alike.trans {c c' c'' : Cpu} (h : c.Alike c') (h' : c'.Alike c'') : c.Alike c'' :=
  ⟨h.a.trans h'.a, h.x.trans h'.x, h.y.trans h'.y, h.sp.trans h'.sp, h.flags.trans h'.flags⟩

theorem alike_later (n : Nat) (c : Cpu) : (c.later n).Alike c := ⟨rfl, rfl, rfl, rfl, rfl⟩

theorem alike_past (mode : Mode) (c : Cpu) : (c.past mode).Alike c := ⟨rfl, rfl, rfl, rfl, rfl⟩

/-- Equal registers and flags can be replaced in what is made of nothing else. -/
theorem respectsAlike_of_eq {effect : Cpu → Cpu}
    (h : ∀ c pc n halts, (effect { c with pc := pc, cycles := n, breakHalts := halts }).Alike
      (effect c)) : RespectsAlike effect := by
  rintro ⟨a, x, y, sp, pc, flags, n, halts⟩ ⟨a', x', y', sp', pc', flags', n', halts'⟩ hc
  obtain ⟨rfl, rfl, rfl, rfl, rfl⟩ := hc
  exact (h ⟨a, x, y, sp, pc, flags, n, halts⟩ pc' n' halts').symm

end Cpu

/-- The operation reads and writes its operand, and what it does besides is told by the registers
and makes up nothing but registers. -/
def Operation.IsLocal : Operation → Prop
  | load effect | alter _ effect => ∀ b, RespectsAlike (effect b)
  | internal effect => RespectsAlike effect
  | _ => False

namespace Mnemonic

open Cpu (respectsAlike_of_eq)

theorem isLocal_of_parts {fused first second : Mnemonic}
    (h : fused.parts? = some (first, second)) :
    fused.operation.IsLocal ∧ first.operation.IsLocal ∧ second.operation.IsLocal := by
  cases fused with
  | dcp | isc | slo | rla | sre | rra =>
      cases h
      refine ⟨fun b => respectsAlike_of_eq ?_, fun b => respectsAlike_of_eq ?_,
        fun b => respectsAlike_of_eq ?_⟩ <;>
      exact fun _ _ _ _ => ⟨rfl, rfl, rfl, rfl, rfl⟩
  | lax =>
      cases h
      refine ⟨fun b => respectsAlike_of_eq ?_, fun b => respectsAlike_of_eq ?_,
        respectsAlike_of_eq ?_⟩ <;>
      exact fun _ _ _ _ => ⟨rfl, rfl, rfl, rfl, rfl⟩
  | _ => cases h

/-- Registers that are alike remain so, and the cell is changed alike. -/
theorem actOn_alike {mnemonic : Mnemonic} (hlocal : mnemonic.operation.IsLocal) {c c' : Cpu}
    (h : c.Alike c') (e : Word) (m : FullMemory) :
    (mnemonic.actOn e c m).1.Alike (mnemonic.actOn e c' m).1 ∧
      (mnemonic.actOn e c m).2 = (mnemonic.actOn e c' m).2 := by
  rw [actOn_eq, actOn_eq]
  cases hop : mnemonic.operation with
  | load effect =>
      rw [hop] at hlocal
      exact ⟨hlocal _ c c' h, rfl⟩
  | alter change effect =>
      rw [hop] at hlocal
      simp only [Operation.performed, Operand.byte, h.flags]
      refine ⟨hlocal _ _ _ ?_, trivial⟩
      exact ⟨h.a, h.x, h.y, h.sp, rfl⟩
  | internal effect =>
      rw [hop] at hlocal
      exact ⟨hlocal c c' h, rfl⟩
  | _ =>
      rw [hop] at hlocal
      exact hlocal.elim

end Mnemonic

/-! ### Steps -/

namespace Cpu

/-- The processor is at an instruction with the given mnemonic, which has its operand at the given
address or needs none. -/
def Faces (cpu : Cpu) (m : FullMemory) (mnemonic : Mnemonic) (e : Word) : Prop :=
  ∃ i, Instruction.decode (m.busRead cpu.pc) = some i ∧ i.mnemonic = mnemonic ∧
    (i.mode.effectiveAddress? cpu m.busRead = some e ∨ mnemonic = .tax)

/-- Every address can be faced by a documented instruction that names it. -/
theorem faces_absolute {cpu : Cpu} {m : FullMemory} {mnemonic : Mnemonic} {e : Word}
    (hd : Instruction.decode (m.busRead cpu.pc) = some ⟨mnemonic, .absolute, true⟩)
    (hlow : m.busRead (cpu.pc + 1) = e.low) (hhigh : m.busRead (cpu.pc + 2) = e.high) :
    cpu.Faces m mnemonic e := by
  refine ⟨_, hd, rfl, Or.inl ?_⟩
  simp only [Mode.effectiveAddress?, hlow, hhigh, Word.ofBytes_high_low]

/-- What an instruction leaves of registers and memory: all that the operation on its cell does. -/
theorem step_actOn {cpu : Cpu} {m : FullMemory} {mnemonic : Mnemonic} {e : Word}
    (hlocal : mnemonic.operation.IsLocal) (h : cpu.Faces m mnemonic e) :
    (∃ n, (step.run cpu m).result = .ok (some n)) ∧
      (step.run cpu m).cpu.Alike (mnemonic.actOn e cpu m).1 ∧
      (step.run cpu m).bus = (mnemonic.actOn e cpu m).2 := by
  obtain ⟨i, hd, rfl, he⟩ := h
  have hbrk : i.mnemonic ≠ .brk := by
    intro hbrk
    rw [hbrk] at hlocal
    exact hlocal
  obtain ⟨n, hresult, hcpu, hbus⟩ := step_full hd (not_halt_of_decode hd hbrk)
  obtain ⟨halike, hmemory⟩ := Mnemonic.actOn_alike hlocal (alike_past i.mode cpu) e m
  have hperform : (i.mnemonic.operation.perform (i.mode.operandAt cpu m.busRead)).run
        (cpu.past i.mode) m =
      (i.mnemonic.operation.perform (.cell e false)).run (cpu.past i.mode) m := by
    rcases he with he | htax
    · rw [← i.mode.address?_operandAt] at he
      obtain ⟨crossed, ho⟩ := Operand.eq_cell_of_address? he
      rw [ho, Operation.perform_cell _ e crossed false]
    · rw [htax]
      rfl
  rw [hcpu, hbus, hperform]
  exact ⟨⟨n, hresult⟩, (alike_later n _).trans halike, hmemory⟩

/-- Two steps on the same cell do what their operations do one after the other, whatever happens to
the program counter before, between and after them. -/
theorem steps_actOn {first second : Mnemonic} (hlocal₁ : first.operation.IsLocal)
    (hlocal₂ : second.operation.IsLocal) {cpu cpu₁ cpu₂ : Cpu} {m : FullMemory} {e : Word}
    (h₁ : cpu₁.Alike cpu) (hfaces₁ : cpu₁.Faces m first e)
    (h₂ : cpu₂.Alike (step.run cpu₁ m).cpu)
    (hfaces₂ : cpu₂.Faces (step.run cpu₁ m).bus second e) :
    let half := first.actOn e cpu m
    let pair := second.actOn e half.1 half.2
    (∃ n, (step.run cpu₁ m).result = .ok (some n)) ∧
      (∃ n, (step.run cpu₂ (step.run cpu₁ m).bus).result = .ok (some n)) ∧
      (step.run cpu₂ (step.run cpu₁ m).bus).cpu.Alike pair.1 ∧
      (step.run cpu₂ (step.run cpu₁ m).bus).bus = pair.2 := by
  obtain ⟨hresult₁, hcpu₁, hbus₁⟩ := step_actOn hlocal₁ hfaces₁
  obtain ⟨hresult₂, hcpu₂, hbus₂⟩ := step_actOn hlocal₂ hfaces₂
  obtain ⟨hstart, hmemory⟩ := Mnemonic.actOn_alike hlocal₁ h₁ e m
  -- what is left for the second step is what the first operation leaves
  obtain ⟨hend, hmemory₂⟩ :=
    Mnemonic.actOn_alike hlocal₂ (h₂.trans (hcpu₁.trans hstart)) e (step.run cpu₁ m).bus
  have hpair := hcpu₂.trans hend
  have hpairBus := hbus₂.trans hmemory₂
  rw [hbus₁, hmemory] at hresult₂ hpair hpairBus ⊢
  exact ⟨hresult₁, hresult₂, hpair, hpairBus⟩

/-- The instructions that do two things at once have their operand in memory. -/
theorem exists_effectiveAddress_of_parts {opcode : Byte} {i : Instruction}
    (hd : Instruction.decode opcode = some i) {first second : Mnemonic}
    (hparts : i.mnemonic.parts? = some (first, second)) (cpu : Cpu) (memory : Word → Byte) :
    ∃ e, i.mode.effectiveAddress? cpu memory = some e := by
  have hi : i.mnemonic.parts?.isSome →
      i.mode ≠ .accumulator ∧ i.mode ≠ .implied ∧ i.mode ≠ .immediate ∧ i.mode ≠ .relative := by
    refine Instruction.of_decode (P := fun i => i.mnemonic.parts?.isSome →
      i.mode ≠ .accumulator ∧ i.mode ≠ .implied ∧ i.mode ≠ .immediate ∧ i.mode ≠ .relative) ?_ hd
    decide +kernel
  obtain ⟨haccumulator, himplied, himmediate, hrelative⟩ := hi (by rw [hparts]; rfl)
  cases hmode : i.mode with
  | accumulator => exact absurd hmode haccumulator
  | implied => exact absurd hmode himplied
  | immediate => exact absurd hmode himmediate
  | relative => exact absurd hmode hrelative
  | _ => exact ⟨_, rfl⟩

/-- **An undocumented instruction is two documented ones.**  An instruction that has two parts has
its operand at an address, and its step leaves the registers, all flags and the memory just as the
operations of its parts do when they are carried out on that address one after the other.  So do
the steps of any two instructions with these mnemonics and the same effective address, wherever
they stand. -/
theorem fused_is_pair (cpu : Cpu) (m : FullMemory) {i : Instruction} {first second : Mnemonic}
    (hd : Instruction.decode (m.busRead cpu.pc) = some i)
    (hparts : i.mnemonic.parts? = some (first, second)) :
    ∃ e, i.mode.effectiveAddress? cpu m.busRead = some e ∧
      let fused := step.run cpu m
      let half := first.actOn e cpu m
      let pair := second.actOn e half.1 half.2
      (∃ n, fused.result = .ok (some n)) ∧ fused.cpu.Alike pair.1 ∧ fused.bus = pair.2 ∧
        ∀ cpu₁ cpu₂ : Cpu, cpu₁.Alike cpu → cpu₁.Faces m first e →
          let o₁ := step.run cpu₁ m
          cpu₂.Alike o₁.cpu → cpu₂.Faces o₁.bus second e →
            let o₂ := step.run cpu₂ o₁.bus
            (∃ n, o₁.result = .ok (some n)) ∧ (∃ n, o₂.result = .ok (some n)) ∧
              fused.cpu.Alike o₂.cpu ∧ fused.bus = o₂.bus := by
  obtain ⟨e, he⟩ := exists_effectiveAddress_of_parts hd hparts cpu m.busRead
  obtain ⟨hlocal, hlocal₁, hlocal₂⟩ := Mnemonic.isLocal_of_parts hparts
  obtain ⟨hresult, hcpu, hbus⟩ := step_actOn hlocal ⟨i, hd, rfl, Or.inl he⟩
  rw [Mnemonic.actOn_of_parts e cpu m hparts] at hcpu hbus
  refine ⟨e, he, hresult, hcpu, hbus, ?_⟩
  intro cpu₁ cpu₂ h₁ hfaces₁ o₁ h₂ hfaces₂ o₂
  obtain ⟨hresult₁, hresult₂, hcpu₂, hbus₂⟩ :=
    steps_actOn hlocal₁ hlocal₂ h₁ hfaces₁ h₂ hfaces₂
  exact ⟨hresult₁, hresult₂, hcpu.trans hcpu₂.symm, hbus.trans hbus₂.symm⟩

/-- There are such instructions: here a rotation and an addition in the stack page, the carry passed
from the one to the other. -/
theorem fused_is_pair_rra :
    ∃ m : FullMemory, Instruction.decode (m.busRead 0x0200) = some ⟨.rra, .absolute, false⟩ ∧
      Mnemonic.rra.parts? = some (.ror, .adc) ∧
        let cpu : Cpu := { a := 0x10, pc := 0x0200, flags := { carry := true } }
        let o := step.run cpu m
        let o₁ := step.run { cpu with pc := 0x0210 } m
        let o₂ := step.run { o₁.cpu with pc := 0x0220 } o₁.bus
        o.cpu.Alike o₂.cpu ∧ o.bus = o₂.bus := by
  obtain ⟨m, hrra, hror, hadc⟩ : ∃ m : FullMemory,
      (m.busRead 0x0200 = 0x6F ∧ m.busRead 0x0201 = 0xFF ∧ m.busRead 0x0202 = 0x01) ∧
        (m.busRead 0x0210 = 0x6E ∧ m.busRead 0x0211 = 0xFF ∧ m.busRead 0x0212 = 0x01) ∧
        (m.busRead 0x0220 = 0x6D ∧ m.busRead 0x0221 = 0xFF ∧ m.busRead 0x0222 = 0x01) := by
    refine ⟨.ofFn fun i => if i = 0x0200 then 0x6F else if i = 0x0210 then 0x6E
      else if i = 0x0220 then 0x6D else if i % 16 = 1 then 0xFF else if i % 16 = 2 then 1 else 3, ?_⟩
    simp only [Memory.busRead_ofFn]
    decide
  have hd : Instruction.decode (m.busRead 0x0200) = some ⟨.rra, .absolute, false⟩ := by
    rw [hrra.1]
    decide
  refine ⟨m, hd, rfl, ?_⟩
  intro cpu o o₁ o₂
  obtain ⟨e, he, -, -, -, hpair⟩ := fused_is_pair cpu m hd rfl
  have haddress : Mode.absolute.effectiveAddress? cpu m.busRead = some 0x01FF := by
    show some (Word.ofBytes (m.busRead 0x0202) (m.busRead 0x0201)) = _
    rw [hrra.2.1, hrra.2.2]
    decide
  cases haddress.symm.trans he
  have hfaces₁ : Faces { cpu with pc := 0x0210 } m .ror 0x01FF :=
    faces_absolute (by rw [hror.1]; decide) hror.2.1 hror.2.2
  -- the rotation writes one cell, which is none of the code
  have hbus : ∀ a, a ≠ 0x01FF → o₁.bus.busRead a = m.busRead a := by
    intro a ha
    have hparts : Mnemonic.rra.parts? = some (.ror, .adc) := rfl
    obtain ⟨-, hlocal, -⟩ := Mnemonic.isLocal_of_parts hparts
    obtain ⟨-, -, hbus⟩ := step_actOn hlocal hfaces₁
    rw [show o₁.bus = _ from hbus]
    exact Memory.busRead_busWrite_ne m _ ha.symm
  rw [← hbus 0x0220 (by decide), ← hbus 0x0221 (by decide), ← hbus 0x0222 (by decide)] at hadc
  have hfaces₂ : Faces { o₁.cpu with pc := 0x0220 } o₁.bus .adc 0x01FF := by
    refine faces_absolute ?_ hadc.2.1 hadc.2.2
    show Instruction.decode (o₁.bus.busRead 0x0220) = _
    rw [hadc.1]
    decide
  obtain ⟨-, -, hcpu, hmemory⟩ := hpair { cpu with pc := 0x0210 } { o₁.cpu with pc := 0x0220 }
    ⟨rfl, rfl, rfl, rfl, rfl⟩ hfaces₁ ⟨rfl, rfl, rfl, rfl, rfl⟩ hfaces₂
  exact ⟨hcpu, hmemory⟩

end Cpu

end Famicom
