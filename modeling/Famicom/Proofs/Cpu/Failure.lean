import Famicom.Proofs.Cpu.Frame
import Famicom.Proofs.Cpu.Request
import Famicom.Proofs.Cpu.Watched

/-! # What a failing instruction leaves behind

An instruction can fail at its opcode, at any of its bytes, and at any of its accesses.  Whatever it
is that fails, little has happened by then (`Cpu.Setback`).  The program counter stands behind the
bytes that have been fetched, and of the board only the picture unit may have changed, by being read.
The flags are as before, with one exception: an instruction that changes its operand has set those
which tell of the change before its write is refused.

Three facts about activities are behind this.  While an operand is looked for, the processor does
nothing but move on past the bytes it fetches (`Activity.MovesOn`).  From then on it fetches nothing,
and all it does before it could be refused something is to set flags (`Operation.perform_leaves`).
And what has been refused has only read, so the board can be told from the accesses
(`Activity.WritesLast.onlyReads_of_error`). -/

namespace Famicom

open Program
open Activity (Stop WritesLast)
open Unbounded (Flag)

/-! ### Moving on -/

namespace Cpu

/-- The processor moved on past a number of instruction bytes. -/
def movedOn (cpu : Cpu) (n : Nat) : Cpu := { cpu with pc := cpu.pc + BitVec.ofNat 16 n }

theorem movedOn_zero (cpu : Cpu) : cpu.movedOn 0 = cpu := by simp [movedOn]

theorem movedOn_movedOn (cpu : Cpu) (m n : Nat) :
    (cpu.movedOn m).movedOn n = cpu.movedOn (m + n) := by
  simp only [movedOn, BitVec.ofNat_add, BitVec.add_assoc]

end Cpu

namespace Activity

variable {α β : Type} [Bus β]

/-- The processor is always the given one, moved on past the bytes that have been fetched. -/
def MovesOn (start : Cpu) : Activity α → Prop
  | done cpu _ | fail cpu _ => cpu = start
  | fetch cpu next => cpu = start ∧ ∀ b, (next b).MovesOn (start.movedOn 1)
  | read cpu _ next => cpu = start ∧ ∀ b, (next b).MovesOn start
  | write cpu _ _ next => cpu = start ∧ (next ()).MovesOn start

theorem MovesOn.cpu_run {t : Activity α} {start : Cpu} (h : t.MovesOn start) (bus : β) :
    (t.run bus).cpu = start.movedOn (t.run bus).fetched.length := by
  induction t generalizing start bus with
  | done cpu a | fail cpu fault =>
      cases h
      exact cpu.movedOn_zero.symm
  | fetch cpu next ih =>
      obtain ⟨rfl, hnext⟩ := h
      unfold Activity.run
      split
      · exact cpu.movedOn_zero.symm
      · have hrest := ih (Bus.read bus cpu.pc).1 (hnext _) (Bus.read bus cpu.pc).2
        rw [Cpu.movedOn_movedOn, Nat.add_comm] at hrest
        exact hrest
  | read cpu a next ih =>
      obtain ⟨rfl, hnext⟩ := h
      unfold Activity.run
      split
      · exact cpu.movedOn_zero.symm
      · exact ih _ (hnext _) _
  | write cpu a d next ih =>
      obtain ⟨rfl, hnext⟩ := h
      unfold Activity.run
      split
      · exact cpu.movedOn_zero.symm
      · exact ih () hnext _

/-- What has no bytes to fetch fetches none, however it ends. -/
theorem FetchesAll.fetched_eq_nil {pc : Word} {t : Activity α} (h : t.FetchesAll pc 0) (bus : β) :
    (t.run bus).fetched = [] := by
  induction t generalizing bus with
  | done cpu a | fail cpu fault => rfl
  | fetch cpu next ih => exact h.elim
  | read cpu a next ih =>
      unfold Activity.run
      split
      · rfl
      · exact ih _ (h _) _
  | write cpu a d next ih =>
      unfold Activity.run
      split
      · rfl
      · exact ih () h.2 _

end Activity

theorem Mode.operand_movesOn (m : Mode) (cpu : Cpu) : (m.operand cpu).MovesOn cpu := by
  cases m with
  | accumulator | implied => rfl
  | immediate | relative | zeroPage | zeroPageX | zeroPageY => exact ⟨rfl, fun _ => rfl⟩
  | absolute | absoluteX | absoluteY => exact ⟨rfl, fun _ => ⟨rfl, fun _ => rfl⟩⟩
  | indirect => exact ⟨rfl, fun _ => ⟨rfl, fun _ => ⟨rfl, fun _ => ⟨rfl, fun _ => rfl⟩⟩⟩⟩
  | indirectX | indirectY => exact ⟨rfl, fun _ => ⟨rfl, fun _ => ⟨rfl, fun _ => rfl⟩⟩⟩

/-! ### Flags set too early -/

/-- What can be left of a processor where its operation is cut short: nothing has happened, or the
flags have been set and the write is refused. -/
def Operation.Leaves (op : Operation) (start : Cpu) (cpu : Cpu) (s : Stop) : Prop :=
  cpu = start ∨ ∃ change effect b e, op = alter change effect ∧ s = .unwritten e ∧
    cpu = { start with flags := (change b start.flags).2 }

/-- Where an operation can be refused something, it has at most set flags. -/
theorem Operation.perform_leaves (op : Operation) (o : Operand) (cpu : Cpu) :
    (op.perform o cpu).Holds (fun c s => s.Granted ∨ op.Leaves cpu c s) fun _ _ => True := by
  have hstack : ∀ sp, Stop.Granted (.unwritten (.stackCell sp)) :=
    fun sp => ⟨trivial, Board.isCell_stackCell sp⟩
  have hstack' : ∀ sp, Stop.Granted (.unread (.stackCell sp)) :=
    fun sp => ⟨trivial, Board.isCell_stackCell sp⟩
  cases op with
  | load effect =>
      cases o with
      | cell e crossed => exact ⟨Or.inr (Or.inl rfl), fun _ => trivial⟩
      | none | accumulator | value b => trivial
  | store value =>
      cases o with
      | cell e crossed => exact ⟨Or.inr (Or.inl rfl), trivial⟩
      | none | accumulator | value b => trivial
  | alter change effect =>
      cases o with
      | cell e crossed =>
          refine ⟨Or.inr (Or.inl rfl), fun b => ⟨Or.inr (Or.inr ?_), trivial⟩⟩
          exact ⟨change, effect, b, e, rfl, rfl, rfl⟩
      | none | accumulator | value b => trivial
  | skip | internal effect | jump => trivial
  | branch taken =>
      have hload : (o.load cpu).Holds
          (fun c s => s.Granted ∨ (branch taken).Leaves cpu c s) fun _ _ => True := by
        cases o with
        | cell e crossed => exact ⟨Or.inr (Or.inl rfl), fun _ => trivial⟩
        | none | accumulator | value b => trivial
      rw [perform, Program.holds_bind]
      refine hload.mono (fun _ _ h => h) fun c distance _ => ?_
      rw [Program.holds_bind, holds_get]
      split
      · trivial
      · trivial
  | push value => exact ⟨Or.inl (hstack _), trivial⟩
  | pull effect => exact ⟨Or.inl (hstack' _), fun _ => trivial⟩
  | call => exact ⟨Or.inl (hstack _), Or.inl (hstack _), trivial⟩
  | returnFromCall => exact ⟨Or.inl (hstack' _), fun _ => ⟨Or.inl (hstack' _), fun _ => trivial⟩⟩
  | returnFromInterrupt =>
      exact ⟨Or.inl (hstack' _), fun _ => ⟨Or.inl (hstack' _), fun _ =>
        ⟨Or.inl (hstack' _), fun _ => trivial⟩⟩⟩
  | softwareInterrupt =>
      have hvector : Stop.Granted (.unread Cpu.irqVector) := ⟨trivial, trivial⟩
      have hvector' : Stop.Granted (.unread (Cpu.irqVector + 1)) := ⟨trivial, trivial⟩
      exact ⟨Or.inl (hstack _), Or.inl (hstack _), Or.inl (hstack _), Or.inl hvector, fun _ =>
        ⟨Or.inl hvector', fun _ => trivial⟩⟩

/-- The instructions that read their operand, change it and store it. -/
def Mnemonic.changers : List Mnemonic :=
  [asl, lsr, rol, ror, inc, dec, slo, sre, rla, rra, isc, dcp]

/-- The flags that tell of a change of the operand. -/
def Flag.ofChange : List Flag := [.negative, .zero, .carry]

theorem Mnemonic.alter_changes {m : Mnemonic} {change : Flags.Change} {effect : Byte → Cpu → Cpu}
    (h : m.operation = .alter change effect) :
    m ∈ changers ∧ ∀ flag ∉ Flag.ofChange, ∀ b f, flag.get (change b f).2 = flag.get f := by
  have hflags : ∀ flag ∉ Flag.ofChange, flag = .interruptDisable ∨ flag = .decimal ∨
      flag = .brk ∨ flag = .unused ∨ flag = .overflow := by
    intro flag
    cases flag <;> simp [Flag.ofChange]
  cases m with
  | asl | lsr | rol | ror | inc | dec | slo | sre | rla | rra | isc | dcp =>
      cases h
      refine ⟨by decide, fun flag hflag b f => ?_⟩
      rcases hflags flag hflag with rfl | rfl | rfl | rfl | rfl <;> rfl
  | _ => cases h

/-! ### What has only been read -/

/-- The access reads. -/
def Access.IsRead : Access → Prop
  | fetch _ _ | read _ _ => True
  | write _ _ => False

/-- The read of a register of the picture unit that an access is, if it is one.  Instruction bytes
can be fetched from there as well. -/
def Access.registerRead? : Access → Option Ppu.Use
  | fetch a _ | read a _ => (Board.registerAddress? a).map .read
  | write _ _ => none

/-- The reads of registers among the accesses, in order. -/
def Outcome.registerReads {α β : Type} (o : Outcome α β) : List Ppu.Use :=
  o.accesses.filterMap Access.registerRead?

/-- Of the board that the activity began on, only the picture unit may have changed, and this by the
reads of its registers. -/
structure Outcome.OnlyReads {α : Type} (o : Outcome α Board) (b : Board) : Prop where
  accesses : ∀ x ∈ o.accesses, x.IsRead
  bus_eq : o.bus = { b with ppu := o.registerReads.foldl Ppu.after b.ppu }

namespace Outcome

variable {α : Type} {b : Board}

theorem onlyReads_nil (b : Board) (result : Except Fault α) (cpu : Cpu) :
    OnlyReads ⟨result, cpu, b, []⟩ b where
  accesses x hx := by cases hx
  bus_eq := rfl

/-- Reading an address first changes the picture unit first. -/
theorem OnlyReads.after {o : Outcome α Board} {a : Word} (h : o.OnlyReads (Bus.read b a).2)
    {x : Access} (hread : x.IsRead) (hx : x.registerRead? = (Board.registerAddress? a).map .read) :
    (o.after x).OnlyReads b where
  accesses := List.forall_mem_cons.mpr ⟨hread, h.accesses⟩
  bus_eq := by
    have hrest : ∀ (t : Board.Target) (ppu : Ppu), { (b.read t).2 with ppu } = { b with ppu } := by
      intro t ppu
      cases t <;> rfl
    have hppu : (Bus.read b a).2.ppu = b.ppu.afterAccess (.read a 0) := b.ppu_read_eq a 0
    show o.bus = { b with ppu := (List.filterMap _ (x :: o.accesses)).foldl Ppu.after b.ppu }
    rw [h.bus_eq, hppu, List.filterMap_cons, hx]
    exact (hrest (Board.decode a) _).trans (by
      rw [Ppu.afterAccess, Access.registerUse?]
      cases Board.registerAddress? a <;> rfl)

end Outcome

/-- What has been refused something has only read. -/
theorem Activity.WritesLast.onlyReads_of_error {α : Type} {t : Activity α} (ht : t.WritesLast)
    {b : Board} {fault : Fault} (h : (t.run b).result = .error fault) : (t.run b).OnlyReads b := by
  induction t generalizing b with
  | done c a | fail c f => exact Outcome.onlyReads_nil b _ c
  | fetch c next ih =>
      unfold Activity.run at h ⊢
      split
      · exact Outcome.onlyReads_nil b _ c
      · rename_i hf
        rw [hf] at h
        exact (ih _ (ht _) h).after trivial rfl
  | read c a next ih =>
      unfold Activity.run at h ⊢
      split
      · exact Outcome.onlyReads_nil b _ c
      · rename_i hf
        rw [hf] at h
        exact (ih _ (ht _) h).after trivial rfl
  | write c a d next ih =>
      unfold Activity.run at h ⊢
      split
      · exact Outcome.onlyReads_nil b _ c
      · rename_i hf
        rw [hf] at h
        -- the write has been granted, and nothing after it can fail
        obtain ⟨u, hu⟩ := Holds.done_on_board ht (Bus.write b a d)
        cases hu.symm.trans h

/-! ### Instructions -/

/-- Only one register refuses to be written. -/
theorem Board.fault_of_unwritten {b : Board} {a : Word} {fault : Fault}
    (h : Bus.writeFault? b a = some fault) : fault = .readOnlyRegister 0x2002 := by
  change b.writeFault? (decode a) = some fault at h
  cases ht : decode a with
  | register r =>
      rw [ht] at h
      change b.ppu.writeFault? r = some fault at h
      cases r with
      | status =>
          unfold Ppu.writeFault? at h
          split at h
          · cases h
            rfl
          · cases h
      | _ =>
          rw [b.ppu.writeFault?_of_writable rfl] at h
          cases h
  | _ =>
      rw [ht] at h
      cases h

/-- What fails in two parts fails in the first, and nothing else is done, or it fails in the second. -/
theorem Outcome.error_of_andThen {α β γ : Type} {o : Outcome α β} {f : Cpu → α → β → Outcome γ β}
    {fault : Fault} (h : (o.andThen f).result = .error fault) :
    o.result = .error fault ∧ o.andThen f = ⟨.error fault, o.cpu, o.bus, o.accesses⟩ ∨
      ∃ a, o.result = .ok a ∧ (f o.cpu a o.bus).result = .error fault ∧
        o.andThen f = { f o.cpu a o.bus with accesses := o.accesses ++ (f o.cpu a o.bus).accesses } := by
  obtain ⟨_ | a, cpu, bus, xs⟩ := o
  · cases h
    exact .inl ⟨rfl, rfl⟩
  · exact .inr ⟨a, rfl, h, rfl⟩

/-- An operation that fails leaves what it can leave where the board has refused something. -/
theorem Operation.leaves_of_error {op : Operation} {o : Operand} {cpu : Cpu} {b : Board}
    {fault : Fault} (h : ((op.perform o).run cpu b).result = .error fault) :
    ∃ s, op.Leaves cpu ((op.perform o).run cpu b).cpu s ∧
      s.Explains ((op.perform o).run cpu b).bus fault := by
  obtain ⟨s, hgranted | hs, hexplains⟩ := of_error (op.perform_leaves o cpu) h
  · exact absurd hexplains (Stop.not_explains_of_granted hgranted _ _)
  · exact ⟨s, hs, hexplains⟩

/-- At most the flags have changed. -/
theorem Operation.Leaves.cpu_eq {op : Operation} {start cpu : Cpu} {s : Stop}
    (h : op.Leaves start cpu s) : cpu = { start with flags := cpu.flags } := by
  rcases h with rfl | ⟨change, effect, b, e, -, -, rfl⟩
  · rfl
  · rfl

namespace Cpu

/-- An instruction that fails has failed to find its operand, or else its operation has failed. -/
theorem run_execute_of_error {i : Instruction} {cpu : Cpu} {b : Board} {fault : Fault}
    (h : ((execute i).run cpu b).result = .error fault) :
    let o := (execute i).run cpu b
    let q := i.mode.operand.run cpu b
    o = ⟨.error fault, q.cpu, q.bus, q.accesses⟩ ∨
      ∃ operand, let p := (i.mnemonic.operation.perform operand).run q.cpu q.bus
        p.result = .error fault ∧ o = ⟨.error fault, p.cpu, p.bus, q.accesses ++ p.accesses⟩ := by
  intro o q
  rw [execute, run_bind] at h
  obtain ⟨-, ho⟩ | ⟨operand, -, hrest, ho⟩ := Outcome.error_of_andThen h
  · exact .inl ((run_bind cpu b _ _).trans ho)
  · rw [run_bind] at hrest
    obtain ⟨hperform, hp⟩ | ⟨branch, -, hspent, -⟩ := Outcome.error_of_andThen hrest
    · refine .inr ⟨operand, hperform, (run_bind cpu b _ _).trans (ho.trans ?_)⟩
      rw [run_bind, hp]
    · -- to count the cycles cannot fail
      cases hspent

/-- An instruction that is cut short leaves what its operation leaves, moved on past its bytes. -/
theorem execute_leaves {i : Instruction} {cpu : Cpu} {b : Board} {fault : Fault}
    (h : ((execute i).run cpu b).result = .error fault) :
    let o := (execute i).run cpu b
    ∃ s, i.mnemonic.operation.Leaves (cpu.movedOn o.fetched.length) o.cpu s ∧
      s.Explains o.bus fault := by
  have hmoves : (i.mode.operand.run cpu b).cpu =
      cpu.movedOn (i.mode.operand.run cpu b).fetched.length :=
    (i.mode.operand_movesOn cpu).cpu_run b
  obtain ho | ⟨operand, hp, ho⟩ := run_execute_of_error h
  · obtain ⟨s, -, hexplains⟩ := of_error (execute_holds i) h
    refine ⟨s, .inl ?_, hexplains⟩
    rw [ho]
    exact hmoves
  · obtain ⟨s, hs, hexplains⟩ := Operation.leaves_of_error hp
    have hnone : ∀ c, (i.mnemonic.operation.perform operand c).FetchesAll 0 0 :=
      fun _ => i.mnemonic.operation.fetchesAll_perform operand
    have hfetched : ((execute i).run cpu b).fetched = (i.mode.operand.run cpu b).fetched := by
      rw [ho, Outcome.fetched, List.filterMap_append]
      exact (congrArg _ ((hnone _).fetched_eq_nil _)).trans (List.append_nil _)
    refine ⟨s, ?_, ?_⟩
    · rw [hfetched, ← hmoves, ho]
      exact hs
    · rw [ho]
      exact hexplains

/-- What is left by an instruction that has failed. -/
structure Setback (cpu : Cpu) (b : Board) (fault : Fault) (o : Outcome (Option Nat) Board) :
    Prop where
  /-- But for the flags, the processor has only moved on past the bytes that it has fetched. -/
  cpu_eq : o.cpu = { cpu.movedOn o.fetched.length with flags := o.cpu.flags }
  flags_eq : ∀ flag ∉ Flag.ofChange, flag.get o.cpu.flags = flag.get cpu.flags
  /-- If flags have changed, the instruction was to change its operand, and the status register has
  refused to be written. -/
  of_flags_ne : o.cpu.flags ≠ cpu.flags → fault = .readOnlyRegister 0x2002 ∧
    ∃ opcode i, o.fetched.head? = some opcode ∧ Instruction.decode opcode = some i ∧
      i.mnemonic ∈ Mnemonic.changers
  onlyReads : o.OnlyReads b
  transferRequest_eq : o.bus.ppu.transferRequest = b.ppu.transferRequest
  /-- An observer is told that the instruction begins, and its bytes, but no end. -/
  watch_eq : ∀ {σ : Type} (tell : σ → Notice → σ) (s : σ), watchStep tell cpu b s =
    (o, (Notice.began cpu :: o.fetched.map .fetched).foldl tell s)

section
variable {cpu : Cpu} {b : Board} {fault : Fault}

/-- A step that fails has only moved on, or its instruction is known and has left what its operation
leaves. -/
theorem step_leaves (h : (step.run cpu b).result = .error fault) :
    let o := step.run cpu b
    o.cpu = cpu.movedOn o.fetched.length ∨
      ∃ opcode i s, o.fetched.head? = some opcode ∧ Instruction.decode opcode = some i ∧
        i.mnemonic.operation.Leaves (cpu.movedOn o.fetched.length) o.cpu s ∧
        s.Explains o.bus fault := by
  cases hf : Bus.readFault? b cpu.pc with
  | some f =>
      rw [step_run_of_fault hf]
      exact Or.inl cpu.movedOn_zero.symm
  | none =>
      rw [step_run_of_fetched hf] at h ⊢
      generalize (Bus.read b cpu.pc).1 = opcode at h ⊢
      by_cases hhalt : opcode = 0 ∧ cpu.breakHalts
      · rw [dispatch_of_halt hhalt] at h
        cases h
      cases hd : Instruction.decode opcode with
      | none =>
          rw [dispatch_of_unknown hd]
          exact Or.inl rfl
      | some i =>
          rw [dispatch_of_known hd hhalt, run_map] at h ⊢
          have hexecute : ∃ f, ((execute i).run { cpu with pc := cpu.pc + 1 }
              (Bus.read b cpu.pc).2).result = .error f ∧ f = fault := by
            revert h
            show Except.map some _ = _ → _
            cases ((execute i).run { cpu with pc := cpu.pc + 1 } (Bus.read b cpu.pc).2).result with
            | ok n => exact fun h => by cases h
            | error f => exact fun h => ⟨f, rfl, by cases h; rfl⟩
          obtain ⟨f, hf, rfl⟩ := hexecute
          obtain ⟨s, hs, hexplains⟩ := execute_leaves hf
          change i.mnemonic.operation.Leaves ((cpu.movedOn 1).movedOn _) _ s at hs
          rw [movedOn_movedOn, Nat.add_comm] at hs
          exact Or.inr ⟨opcode, i, s, rfl, hd, hs, hexplains⟩

/-- What of the flags is left by an operation that has been cut short. -/
theorem flags_of_leaves {m : Mnemonic} {start c : Cpu} {s : Stop}
    (h : m.operation.Leaves start c s) (hexplains : s.Explains b fault) :
    (∀ flag ∉ Flag.ofChange, flag.get c.flags = flag.get start.flags) ∧
      (c.flags ≠ start.flags → fault = .readOnlyRegister 0x2002 ∧ m ∈ Mnemonic.changers) := by
  rcases h with rfl | ⟨change, effect, d, e, hop, rfl, rfl⟩
  · exact ⟨fun _ _ => rfl, fun hne => absurd rfl hne⟩
  · obtain ⟨hchanges, hflags⟩ := Mnemonic.alter_changes hop
    exact ⟨fun flag hflag => hflags flag hflag d start.flags,
      fun _ => ⟨Board.fault_of_unwritten hexplains, hchanges⟩⟩

/-- The end of an instruction that has failed is not told. -/
theorem notices_of_error {o : Outcome (Option Nat) Board} (h : o.result = .error fault) :
    o.stepNotices cpu = .began cpu :: o.fetched.map .fetched := by
  rw [Outcome.stepNotices, Outcome.completion, h]
  exact List.append_nil _

/-- **What a failing instruction leaves behind.**  A step that fails, on a strict board or another,
has changed nothing of the processor but the program counter, which stands behind the bytes that have
been fetched, and perhaps the three flags of a change whose write to the status register has been
refused.  It has written nothing and requested no transfer; of the board only the picture unit may
have changed, by reads of its registers.  An observer is not told of an end. -/
theorem failed_instruction (h : (step.run cpu b).result = .error fault) :
    cpu.Setback b fault (step.run cpu b) := by
  have hreads := (step_writesLast cpu).onlyReads_of_error h
  have hrequest : (step.run cpu b).bus.ppu.transferRequest = b.ppu.transferRequest :=
    preserved_of_step_error (I := fun b' => b'.ppu.transferRequest = b.ppu.transferRequest)
      (fun b' a hb' => (b'.transferRequest_read a).trans hb') rfl h
  have hwatch : ∀ {σ : Type} (tell : σ → Notice → σ) (s : σ), watchStep tell cpu b s =
      (step.run cpu b, (Notice.began cpu :: (step.run cpu b).fetched.map .fetched).foldl tell s) := by
    intro σ tell s
    rw [← notices_of_error h]
    exact Order.watch_eq tell (.call .step) cpu b s
  rcases step_leaves h with hcpu | ⟨opcode, i, s, hopcode, hd, hleaves, hexplains⟩
  · have hflags : (step.run cpu b).cpu.flags = cpu.flags := by rw [hcpu]; rfl
    exact
      { cpu_eq := by
          rw [hflags]
          exact hcpu
        flags_eq := fun flag _ => congrArg flag.get hflags
        of_flags_ne := fun hne => absurd hflags hne
        onlyReads := hreads
        transferRequest_eq := hrequest
        watch_eq := hwatch }
  · obtain ⟨hflags, hchanged⟩ := flags_of_leaves hleaves hexplains
    exact
      { cpu_eq := hleaves.cpu_eq
        flags_eq := hflags
        of_flags_ne := fun hne =>
          ⟨(hchanged hne).1, opcode, i, hopcode, hd, (hchanged hne).2⟩
        onlyReads := hreads
        transferRequest_eq := hrequest
        watch_eq := hwatch }

/-- There are such instructions: here the status register is to be shifted at another of its addresses.
It has been read and cannot be written, and of the flags only the carry has changed yet. -/
theorem failed_instruction_slo :
    let b : Board :=
      { ram := (((Memory.zero _).set 0 0x0F).set 1 0xFA).set 2 0x3F
        ppu := { strict := true, status := 0x80 } }
    let o := step.run {} b
    o.result = .error (.readOnlyRegister 0x2002) ∧
      o.cpu = { pc := 3, flags := { carry := true } } ∧ o.bus.ram = b.ram ∧
      o.bus.ppu = b.ppu.after (.read 0x2002) := by
  intro b o
  have hresult : o.result = .error (.readOnlyRegister 0x2002) := by decide +kernel
  have hfetched : o.fetched.length = 3 := by decide +kernel
  have hflags : o.cpu.flags = { carry := true } := by decide +kernel
  have hreads : o.registerReads = [.read 0x2002] := by decide +kernel
  have h := failed_instruction hresult
  refine ⟨hresult, ?_, ?_, ?_⟩
  · rw [h.cpu_eq, hfetched, hflags]
    rfl
  · rw [h.onlyReads.bus_eq]
  · rw [h.onlyReads.bus_eq, hreads]
    rfl

end

end Cpu

end Famicom
