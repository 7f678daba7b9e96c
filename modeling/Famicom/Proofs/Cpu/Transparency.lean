import Famicom.Proofs.Cpu.Dispatch
import Famicom.Proofs.Cpu.Timeless
import Famicom.Proofs.Cpu.Trail
import Famicom.Proofs.Footprint

/-! # Interrupts do not show

An interrupt whose handler returns at once leaves its traces in two places: 13 cycles have been
counted, and the three cells of the stack into which the return address and the flags went are not
what they were (`Cpu.interruptCells`).  Everything else is restored (`Cpu.nmi_rti`).  A run does not
look at the count of cycles (`Cpu.Call.program_later`) and depends on the memory through the cells
that it reads before it has written them (`Activity.run_agree`).  So a run that does not read the
three cells before it has written them goes on as if there had been no interrupt
(`Cpu.interrupt_transparent`). -/

namespace Famicom

open Program

/-! ### The interrupt and the return -/

theorem Flags.pulled_pushedByInterrupt {f : Flags} (hu : f.unused = true) (hb : f.brk = false) :
    Flags.pulled f.pushedByInterrupt = f := by
  rw [Flags.pulled, Flags.pushedByInterrupt, Flags.ofByte_toByte]
  cases f
  cases hu
  cases hb
  rfl

namespace Cpu

/-- The cells into which an interrupt puts the return address and the flags. -/
def interruptCells (sp : Byte) : List Word :=
  [.stackCell sp, .stackCell (sp - 1), .stackCell (sp - 2)]

/-- The memory after the return address and the flags have been put on the stack. -/
def stacked (cpu : Cpu) (m : FullMemory) : FullMemory :=
  ((m.busWrite (.stackCell cpu.sp) cpu.pc.high).busWrite
    (.stackCell (cpu.sp - 1)) cpu.pc.low).busWrite
      (.stackCell (cpu.sp - 2)) cpu.flags.pushedByInterrupt

theorem agreeOff_stacked (cpu : Cpu) (m : FullMemory) :
    AgreeOff (interruptCells cpu.sp) m (stacked cpu m) := by
  unfold stacked
  apply AgreeOff.write_right
  · apply AgreeOff.write_right
    · apply AgreeOff.write_right (.refl _ m)
      simp [interruptCells]
    · simp [interruptCells]
  · simp [interruptCells]

theorem nmi_run (cpu : Cpu) (m : FullMemory) :
    (Cpu.nmi.run cpu m).result = .ok 7 ∧
      (Cpu.nmi.run cpu m).cpu =
        { cpu with
          sp := cpu.sp - 3
          pc := .ofBytes ((stacked cpu m).busRead 0xFFFB) ((stacked cpu m).busRead 0xFFFA)
          flags := { cpu.flags with interruptDisable := true }
          cycles := cpu.cycles + 7 } ∧
      (Cpu.nmi.run cpu m).bus = stacked cpu m := by
  have h2 : cpu.sp - 1#8 - 1#8 = cpu.sp - 2#8 := by bv_omega
  have h3 : cpu.sp - 2#8 - 1#8 = cpu.sp - 3#8 := by bv_omega
  simp [nmi, interrupt, enterHandler, pushWord, readWord, jumpTo, spend, mapFlags, nmiVector,
    interruptCycles, stacked, Outcome.andThen, Except.map, h2, h3]

/-- A return from an interrupt takes back what was put on the stack. -/
theorem rti_run (cpu : Cpu) (m : FullMemory) (hop : m.busRead cpu.pc = 0x40) :
    (Cpu.step.run cpu m).result = .ok (some 6) ∧
      (Cpu.step.run cpu m).cpu =
        { cpu with
          sp := cpu.sp + 3
          pc := .ofBytes (m.busRead (.stackCell (cpu.sp + 3))) (m.busRead (.stackCell (cpu.sp + 2)))
          flags := .pulled (m.busRead (.stackCell (cpu.sp + 1)))
          cycles := cpu.cycles + 6 } ∧
      (Cpu.step.run cpu m).bus = m := by
  have hd : Instruction.decode 0x40 = some ⟨.rti, .implied, true⟩ := by decide
  have h2 : cpu.sp + 1#8 + 1#8 = cpu.sp + 2#8 := by bv_omega
  have h3 : cpu.sp + 2#8 + 1#8 = cpu.sp + 3#8 := by bv_omega
  have hc : cyclesOf ⟨.rti, .implied, true⟩ .none 0 = 6 := rfl
  rw [step_run_known (hop.symm ▸ hd) (by simp [hop]), hop, execute]
  simp [Mode.operand, Mnemonic.operation, Operation.perform, pullWord, jumpTo, spend, hc,
    Outcome.andThen, Outcome.after, Except.map, h2, h3]

theorem read_stacked (cpu : Cpu) (m : FullMemory) :
    (stacked cpu m).busRead (.stackCell (cpu.sp - 2)) = cpu.flags.pushedByInterrupt ∧
      (stacked cpu m).busRead (.stackCell (cpu.sp - 1)) = cpu.pc.low ∧
      (stacked cpu m).busRead (.stackCell cpu.sp) = cpu.pc.high := by
  have hne : ∀ {s t : Byte}, s ≠ t → Word.stackCell s ≠ Word.stackCell t :=
    fun h hc => h (Word.stackCell_injective hc)
  have h21 : cpu.sp - 2 ≠ cpu.sp - 1 := by bv_omega
  have h20 : cpu.sp - 2 ≠ cpu.sp := by bv_omega
  have h10 : cpu.sp - 1 ≠ cpu.sp := by bv_omega
  unfold stacked
  refine ⟨Memory.busRead_busWrite_self _ _ _, ?_, ?_⟩
  · rw [Memory.busRead_busWrite_ne _ _ (hne h21), Memory.busRead_busWrite_self]
  · rw [Memory.busRead_busWrite_ne _ _ (hne h20), Memory.busRead_busWrite_ne _ _ (hne h10),
      Memory.busRead_busWrite_self]

/-- **The interrupt and the return restore everything**, but for the count of cycles and the three
cells of the stack. -/
theorem nmi_rti {cpu : Cpu} {m : FullMemory} (hunused : cpu.flags.unused = true)
    (hbrk : cpu.flags.brk = false)
    (hreturn : m.busRead (.ofBytes (m.busRead 0xFFFB) (m.busRead 0xFFFA)) = 0x40)
    (hcell : Word.ofBytes (m.busRead 0xFFFB) (m.busRead 0xFFFA) ∉ interruptCells cpu.sp) :
    let o := Cpu.nmi.run cpu m
    let r := Cpu.step.run o.cpu o.bus
    r.result = .ok (some 6) ∧ r.cpu = cpu.later 13 ∧ r.bus = stacked cpu m := by
  intro o r
  obtain ⟨-, hcpu, hbus⟩ := nmi_run cpu m
  have hagree := agreeOff_stacked cpu m
  have hvector : ∀ a : Word, a.high ≠ 1 → (stacked cpu m).busRead a = m.busRead a := by
    intro a ha
    refine hagree a ?_
    simp only [interruptCells, List.mem_cons, List.not_mem_nil, or_false]
    rintro (h | h | h) <;> exact Word.stackCell_ne ha h.symm
  rw [hvector 0xFFFB (by decide), hvector 0xFFFA (by decide)] at hcpu
  have hop : o.bus.busRead o.cpu.pc = 0x40 := by
    show (Cpu.nmi.run cpu m).bus.busRead (Cpu.nmi.run cpu m).cpu.pc = 0x40
    rw [hcpu, hbus]
    exact (hagree _ hcell).trans hreturn
  obtain ⟨hresult, hcpu', hbus'⟩ := rti_run o.cpu o.bus hop
  obtain ⟨hflags, hlow, hhigh⟩ := read_stacked cpu m
  refine ⟨hresult, ?_, hbus'.trans hbus⟩
  have h3 : cpu.sp - 3 + 3 = cpu.sp := by bv_omega
  have h2 : cpu.sp - 3 + 2 = cpu.sp - 1 := by bv_omega
  have h1 : cpu.sp - 3 + 1 = cpu.sp - 2 := by bv_omega
  show (Cpu.step.run (Cpu.nmi.run cpu m).cpu (Cpu.nmi.run cpu m).bus).cpu = _
  rw [hcpu', show o.cpu = _ from hcpu, show o.bus = _ from hbus]
  dsimp only
  rw [h1, h2, h3, hflags, hlow, hhigh, Word.ofBytes_high_low,
    Flags.pulled_pushedByInterrupt hunused hbrk]
  rfl

/-! ### Runs after the interrupt -/

theorem Call.program_later (c : Call) (n : Nat) : c.program.Commutes (later n) := by
  cases c with
  | step => exact step_later n
  | nmi => exact (interrupt_later n _).map _
  | irq =>
      refine Commutes.map (w := later n) (commutes_get_bind (fun _ => rfl) fun start => ?_) some
      split
      · exact commutes_pure _
      · exact interrupt_later n _

namespace Trail

/-- The second trail goes on as the first does, a number of cycles later and with other bytes in
cells that are still stale. -/
structure Shadows (stale : List Word) (n : Nat) (t t' : Trail FullMemory) : Prop where
  cpu_eq : t'.cpu = t.cpu.later n
  agree : AgreeOff (stillStale stale t.accesses) t.bus t'.bus

section
variable {stale : List Word} {n : Nat} {t t' : Trail FullMemory}

/-- One call: the outcomes are the same but for the time, and the trails go on alike. -/
theorem Shadows.call (h : Shadows stale n t t') (c : Call)
    (hf : ReadsFresh stale (t.call c).accesses) :
    (t'.outcome c).result = (t.outcome c).result ∧ Shadows stale n (t.call c) (t'.call c) := by
  have hlater : t'.outcome c =
      { (c.program t.cpu).run t'.bus with cpu := ((c.program t.cpu).run t'.bus).cpu.later n } := by
    show (c.program t'.cpu).run t'.bus = _
    rw [h.cpu_eq, c.program_later n t.cpu]
    exact Activity.run_mapCpu (w := later n) (fun _ => rfl) (c.program t.cpu) t'.bus
  have hfresh : ReadsFresh (stillStale stale t.accesses) ((c.program t.cpu).run t.bus).accesses :=
    (readsFresh_append.mp hf).2
  have hfollows := Activity.run_agree (c.program t.cpu) h.agree hfresh
  refine ⟨?_, ?_, ?_⟩
  · rw [hlater]
    exact hfollows.result_eq
  · show (t'.outcome c).cpu = _
    rw [hlater]
    exact congrArg (later n) hfollows.cpu_eq
  · show AgreeOff (stillStale stale (t.accesses ++ _)) (t.outcome c).bus (t'.outcome c).bus
    rw [hlater, stillStale_append]
    exact hfollows.agree

/-- Any calls. -/
theorem Shadows.calls (h : Shadows stale n t t') (cs : List Call)
    (hf : ReadsFresh stale (t.calls cs).accesses) :
    Shadows stale n (t.calls cs) (t'.calls cs) := by
  induction cs generalizing t t' with
  | nil => exact h
  | cons c cs ih =>
      obtain ⟨rest, hrest⟩ := accesses_prefix (t.call c) cs
      have hfirst : ReadsFresh stale (t.call c).accesses := by
        have hall : ReadsFresh stale ((t.call c).calls cs).accesses := hf
        rw [← hrest] at hall
        exact (readsFresh_append.mp hall).1
      exact ih (h.call c hfirst).2 hf

end

end Trail

/-- **An interrupt does not show.**  The interrupt and the return of its handler take 7 and 6
cycles, and whatever is called next, as long as no cell that the interrupt has written is read
before it is written again, has the same outcome as without the interrupt, 13 cycles later; and only
cells that the interrupt has written and nothing else since can differ. -/
theorem interrupt_transparent (cpu : Cpu) (m : FullMemory) (h : Word)
    (hunused : cpu.flags.unused = true) (hbrk : cpu.flags.brk = false)
    (hvector : Word.ofBytes (m.busRead 0xFFFB) (m.busRead 0xFFFA) = h)
    (hreturn : m.busRead h = 0x40) (hcell : h ∉ interruptCells cpu.sp) :
    let t : Trail FullMemory := ⟨cpu, m, []⟩
    let t' : Trail FullMemory := (t.call .nmi).call .step
    (t.outcome .nmi).result = .ok (some 7) ∧ ((t.call .nmi).outcome .step).result = .ok (some 6) ∧
      t'.cpu = { cpu with cycles := cpu.cycles + 13 } ∧
      (∀ a, a ∉ interruptCells cpu.sp → t'.bus.busRead a = m.busRead a) ∧
      ∀ (cs : List Call) (c : Call),
        ReadsFresh (interruptCells cpu.sp) ((t.calls cs).call c).accesses →
        let o := (t.calls cs).outcome c
        let o' := (t'.calls cs).outcome c
        o'.result = o.result ∧
          o'.cpu = { o.cpu with cycles := o.cpu.cycles + 13 } ∧
          ∀ a, (a ∈ interruptCells cpu.sp → ∃ d, .write a d ∈ ((t.calls cs).call c).accesses) →
            o'.bus.busRead a = o.bus.busRead a := by
  intro t t'
  subst hvector
  obtain ⟨hnmi, -, -⟩ := nmi_run cpu m
  have hcall : t.outcome .nmi = ⟨(Cpu.nmi.run cpu m).result.map some, (Cpu.nmi.run cpu m).cpu,
      (Cpu.nmi.run cpu m).bus, (Cpu.nmi.run cpu m).accesses⟩ := run_map _
  have hstep : (t.call .nmi).outcome .step =
      Cpu.step.run (Cpu.nmi.run cpu m).cpu (Cpu.nmi.run cpu m).bus := by
    show Cpu.step.run (t.outcome .nmi).cpu (t.outcome .nmi).bus = _
    rw [hcall]
  obtain ⟨hrti, hcpu, hbus⟩ := nmi_rti hunused hbrk hreturn hcell
  rw [← hstep] at hrti hcpu hbus
  have hagree := agreeOff_stacked cpu m
  have hstart : Trail.Shadows (interruptCells cpu.sp) 13 t t' := ⟨hcpu, by
    show AgreeOff _ m ((t.call .nmi).outcome .step).bus
    rw [hbus]
    exact hagree⟩
  refine ⟨by rw [hcall, hnmi]; rfl, hrti, hcpu, hstart.agree, fun cs c hf => ?_⟩
  have hbefore : ReadsFresh (interruptCells cpu.sp) (t.calls cs).accesses :=
    (readsFresh_append.mp hf).1
  obtain ⟨hresult, hshadows⟩ := (hstart.calls cs hbefore).call c hf
  refine ⟨hresult, hshadows.cpu_eq, fun a ha => hshadows.agree a fun hstale => ?_⟩
  obtain ⟨hmem, hunwritten⟩ := mem_stillStale.mp hstale
  obtain ⟨d, hd⟩ := ha hmem
  exact hunwritten d hd

theorem pha_accesses (cpu : Cpu) (m : FullMemory) (hop : m.busRead cpu.pc = 0x48) :
    (Cpu.step.run cpu m).accesses = [.fetch cpu.pc 0x48, .write (.stackCell cpu.sp) cpu.a] := by
  rw [step_run_known (i := ⟨.pha, .implied, true⟩) (by rw [hop]; decide) (by simp [hop])]
  simpa [execute, Mode.operand, Mnemonic.operation, Operation.perform, spend, Outcome.andThen,
    Outcome.after] using hop

/-- There are such interrupts: here the handler stands at `0x8000`, and the code that is interrupted
saves the accumulator on the stack, in a cell that the interrupt has written. -/
theorem interrupt_transparent_pha :
    let cpu : Cpu := { a := 7, sp := 0xFD, flags := .initial }
    ∃ m : FullMemory,
      Word.ofBytes (m.busRead 0xFFFB) (m.busRead 0xFFFA) = 0x8000 ∧ m.busRead 0x8000 = 0x40 ∧
        let t : Trail FullMemory := ⟨cpu, m, []⟩
        let t' : Trail FullMemory := (t.call .nmi).call .step
        ReadsFresh (interruptCells 0xFD) (t.call .step).accesses ∧
          (t'.outcome .step).result = (t.outcome .step).result ∧
          (t'.outcome .step).bus.busRead (.stackCell 0xFD) =
            (t.outcome .step).bus.busRead (.stackCell 0xFD) := by
  intro cpu
  -- only some cells matter, so the others are forgotten at once
  obtain ⟨m, hop, hvector, hreturn⟩ : ∃ m : FullMemory, m.busRead 0 = 0x48 ∧
      Word.ofBytes (m.busRead 0xFFFB) (m.busRead 0xFFFA) = 0x8000 ∧ m.busRead 0x8000 = 0x40 := by
    refine ⟨.ofFn fun i => if i = 0 then 0x48 else if i = 0x8000 then 0x40
      else if i = 0xFFFB then 0x80 else 0, ?_, ?_, ?_⟩
    all_goals
      simp only [Memory.busRead_ofFn]
      decide
  refine ⟨m, hvector, hreturn, ?_⟩
  intro t t'
  have haccesses : (t.call .step).accesses = [.fetch 0 0x48, .write (.stackCell 0xFD) 7] :=
    pha_accesses cpu m hop
  have hf : ReadsFresh (interruptCells 0xFD) (t.call .step).accesses := by
    rw [haccesses]
    exact ⟨by decide, trivial⟩
  obtain ⟨-, -, -, -, hrun⟩ :=
    interrupt_transparent cpu m 0x8000 rfl rfl hvector hreturn (by decide)
  obtain ⟨hresult, -, hbus⟩ := hrun [] .step hf
  refine ⟨hf, hresult, hbus _ fun _ => ⟨7, ?_⟩⟩
  show _ ∈ (t.call .step).accesses
  rw [haccesses]
  decide

end Cpu

end Famicom
