import Famicom.Proofs.Clockwork
import Famicom.Proofs.Cpu.Cost
import Famicom.Proofs.Cpu.Dispatch
import Famicom.Proofs.Cpu.Simulation

/-! # The processor stays in its machine

How a call ends is known from the opcode at the program counter, unless the bus refuses an access
(`Cpu.Call.Ends`): a step halts just if the opcode is that of a break which halts, it fails just if
there is no such instruction, and else it is completed, as every interrupt is.  A memory refuses
nothing, and of the board only the registers of a strict picture unit refuse something
(`Board.Refuses`).

The processor on unbounded integers could leave the range of its registers and run into the checks
of the machine.  It does neither, since it does what the processor on bytes and words does
(`Unbounded.simulates_routine`): this is `Unbounded.stays_in_machine`. -/

namespace Famicom

open Program
open Activity (Stop)

/-! ### What is refused -/

/-- The board refuses an access with this fault: a register of a strict picture unit is read that
can only be written, or the other way round. -/
def Board.Refuses (b : Board) (fault : Fault) : Prop :=
  b.ppu.strict = true ∧ ∃ r : Ppu.Register,
    (r.writeOnly = true ∧ fault = .writeOnlyRegister r.toInt) ∨
      (r.readOnly = true ∧ fault = .readOnlyRegister r.toInt)

namespace Board

variable {b : Board} {fault : Fault} {a : Word}

theorem refuses_of_read (h : Bus.readFault? b a = some fault) : b.Refuses fault := by
  have h' : b.readFault? (decode a) = some fault := h
  unfold readFault? at h'
  split at h'
  · rename_i r _
    unfold Ppu.readFault? at h'
    split at h'
    · rename_i hr
      rw [Bool.and_eq_true] at hr
      cases h'
      exact ⟨hr.1, r, Or.inl ⟨hr.2, rfl⟩⟩
    · cases h'
  · cases h'

theorem refuses_of_write (h : Bus.writeFault? b a = some fault) : b.Refuses fault := by
  have h' : b.writeFault? (decode a) = some fault := h
  unfold writeFault? at h'
  split at h'
  · rename_i r _
    unfold Ppu.writeFault? at h'
    split at h'
    · rename_i hr
      rw [Bool.and_eq_true] at hr
      cases h'
      exact ⟨hr.1, r, Or.inr ⟨hr.2, rfl⟩⟩
    · cases h'
  · cases h'

theorem Refuses.of_clockwork {b' : Board} (h : b'.Refuses fault) (hc : b'.clockwork = b.clockwork) :
    b.Refuses fault :=
  ⟨(congrArg Prod.fst hc).symm.trans h.1, h.2⟩

end Board

/-! ### How a call ends -/

namespace Cpu

section ends
variable {β : Type} [Bus β]

/-- The byte that a step fetches as its opcode, if the bus lets it. -/
def Fetches (cpu : Cpu) (bus : β) (opcode : Byte) : Prop :=
  Bus.readFault? bus cpu.pc = none ∧ (Bus.read bus cpu.pc).1 = opcode

/-- How a call ends, where the bus refuses accesses with certain faults only. -/
structure Call.Ends (c : Call) (refuses : Fault → Prop) (cpu : Cpu) (bus : β)
    (result : Except Fault (Option Nat)) : Prop where
  halts_iff : result = .ok none ↔ c = .step ∧ Fetches cpu bus 0 ∧ cpu.breakHalts = true
  unknown_iff : ∀ opcode pc, result = .error (.unknownOpcode opcode pc) ↔
    c = .step ∧ Fetches cpu bus opcode ∧ Instruction.decode opcode = none ∧ pc = cpu.pc
  /-- There are no other faults, and so the call is completed unless it is refused something. -/
  fault_cases : ∀ fault, result = .error fault →
    (∃ opcode, fault = .unknownOpcode opcode cpu.pc) ∨ refuses fault

end ends

section ends
variable {β : Type} [Bus β] {cpu : Cpu} {bus : β} {refuses : Fault → Prop}

/-- A program without faults of its own is completed or refused something. -/
theorem done_or_refused {p : Program Nat}
    (hp : (p cpu).Holds (fun _ s => s.IsRefusal) fun _ _ => True)
    (hr : ∀ fault s, Stop.IsRefusal s → s.Explains (p.run cpu bus).bus fault → refuses fault) :
    (∃ n, (p.run cpu bus).result = .ok n) ∨
      ∃ fault, (p.run cpu bus).result = .error fault ∧ refuses fault := by
  cases h : (p.run cpu bus).result with
  | ok n => exact Or.inl ⟨n, rfl⟩
  | error fault =>
      obtain ⟨s, hs, hexplains⟩ := of_error hp h
      exact Or.inr ⟨fault, rfl, hr fault s hs hexplains⟩

/-- A call that is completed or refused something ends as it should, if it is not a step that is to
halt or to fail. -/
theorem Call.ends_of_done {c : Call} {result : Except Fault Nat}
    (hfree : ∀ opcode pc, ¬ refuses (.unknownOpcode opcode pc))
    (hr : (∃ n, result = .ok n) ∨ ∃ fault, result = .error fault ∧ refuses fault)
    (hgo : c = .step → ∀ opcode, Fetches cpu bus opcode →
      ¬ (opcode = 0 ∧ cpu.breakHalts = true) ∧ Instruction.decode opcode ≠ none) :
    c.Ends refuses cpu bus (result.map some) := by
  have hhalts : ¬ (c = .step ∧ Fetches cpu bus 0 ∧ cpu.breakHalts = true) :=
    fun ⟨hc, hop, hb⟩ => (hgo hc 0 hop).1 ⟨rfl, hb⟩
  have hknown : ∀ opcode pc, ¬ (c = .step ∧ Fetches cpu bus opcode ∧
      Instruction.decode opcode = none ∧ pc = cpu.pc) :=
    fun opcode pc ⟨hc, hop, hd, _⟩ => (hgo hc opcode hop).2 hd
  rcases hr with ⟨n, rfl⟩ | ⟨fault, rfl, hf⟩
  · refine ⟨iff_of_false (fun h => by cases h) hhalts, fun opcode pc => ?_, fun _ h => by cases h⟩
    exact iff_of_false (fun h => by cases h) (hknown opcode pc)
  · refine ⟨iff_of_false (fun h => by cases h) hhalts, fun opcode pc => ?_, fun _ h => ?_⟩
    · refine iff_of_false (fun h => ?_) (hknown opcode pc)
      cases h
      exact hfree opcode pc hf
    · cases h
      exact Or.inr hf

section fetched
variable {op : Byte} (hop : ∀ opcode, Fetches cpu bus opcode ↔ opcode = op)
include hop

theorem Call.ends_of_halt (h0 : op = 0) (hb : cpu.breakHalts = true) :
    Call.Ends .step refuses cpu bus (.ok none) where
  halts_iff := iff_of_true rfl ⟨rfl, (hop 0).mpr h0.symm, hb⟩
  unknown_iff opcode pc := by
    refine iff_of_false (fun h => by cases h) ?_
    rintro ⟨-, hf, hd, -⟩
    rw [(hop opcode).mp hf, h0, decode_zero] at hd
    cases hd
  fault_cases fault h := by cases h

theorem Call.ends_of_unknown (hd : Instruction.decode op = none) :
    Call.Ends .step refuses cpu bus (.error (.unknownOpcode op cpu.pc)) where
  halts_iff := by
    refine iff_of_false (fun h => by cases h) ?_
    rintro ⟨-, hf, -⟩
    rw [← (hop 0).mp hf, decode_zero] at hd
    cases hd
  unknown_iff opcode pc := by
    constructor
    · intro h
      cases h
      exact ⟨rfl, (hop op).mpr rfl, hd, rfl⟩
    · rintro ⟨-, hf, -, rfl⟩
      rw [(hop opcode).mp hf]
  fault_cases fault h := by
    cases h
    exact Or.inl ⟨op, rfl⟩

end fetched

theorem step_ends (hfree : ∀ opcode pc, ¬ refuses (.unknownOpcode opcode pc))
    (hr : ∀ fault s, Stop.IsRefusal s → s.Explains (step.run cpu bus).bus fault → refuses fault) :
    Call.Ends .step refuses cpu bus (step.run cpu bus).result := by
  cases hf : Bus.readFault? bus cpu.pc with
  | some fault =>
      rw [step_run_of_fault hf] at hr ⊢
      have hrefused : refuses fault := hr fault (.unread cpu.pc) trivial hf
      refine Call.ends_of_done hfree (Or.inr ⟨fault, rfl, hrefused⟩) fun _ opcode h => ?_
      cases hf.symm.trans h.1
  | none =>
      rw [step_run_of_fetched hf] at hr ⊢
      have hop : ∀ opcode, Fetches cpu bus opcode ↔ opcode = (Bus.read bus cpu.pc).1 :=
        fun opcode => ⟨fun h => h.2.symm, fun h => ⟨hf, h.symm⟩⟩
      generalize (Bus.read bus cpu.pc).1 = op at hr hop ⊢
      by_cases hhalt : op = 0 ∧ cpu.breakHalts
      · rw [dispatch_of_halt hhalt]
        exact Call.ends_of_halt hop hhalt.1 hhalt.2
      cases hd : Instruction.decode op with
      | none =>
          rw [dispatch_of_unknown hd]
          exact Call.ends_of_unknown hop hd
      | some i =>
          have hgo : ∀ opcode, Fetches cpu bus opcode →
              ¬ (opcode = 0 ∧ cpu.breakHalts = true) ∧ Instruction.decode opcode ≠ none := by
            intro opcode h
            rw [(hop opcode).mp h, hd]
            exact ⟨hhalt, fun h => by cases h⟩
          have hexec : (execute i { cpu with pc := cpu.pc + 1 }).Holds
              (fun _ s => s.IsRefusal) fun _ _ => True :=
            (execute_holds i).mono (fun _ _ h => h.2) fun _ _ _ => trivial
          rw [dispatch_of_known hd hhalt] at hr ⊢
          rw [run_map] at hr ⊢
          exact Call.ends_of_done hfree (done_or_refused hexec hr) fun _ => hgo

/-- **How a call ends**, on a bus that refuses accesses with certain faults only. -/
theorem Call.ends (c : Call) (hfree : ∀ opcode pc, ¬ refuses (.unknownOpcode opcode pc))
    (hr : ∀ fault s, Stop.IsRefusal s → s.Explains (c.program.run cpu bus).bus fault →
      refuses fault) :
    c.Ends refuses cpu bus (c.program.run cpu bus).result := by
  have hint : ∀ vector, (interrupt vector cpu).Holds (fun _ s => s.IsRefusal) fun _ _ => True :=
    fun vector => (interrupt_holds vector cpu).mono (fun _ _ h => h.2) fun _ _ _ => trivial
  cases c with
  | step => exact step_ends hfree hr
  | nmi =>
      rw [Call.program, run_map] at hr ⊢
      exact Call.ends_of_done hfree (done_or_refused (hint nmiVector) hr) fun h => by cases h
  | irq =>
      rw [Call.program, run_map] at hr ⊢
      refine Call.ends_of_done hfree (done_or_refused ?_ hr) fun h => by cases h
      rw [Cpu.irq, Program.holds_bind, holds_get]
      split
      · exact trivial
      · exact hint irqVector

end ends

/-! ### Runs -/

theorem Trail.clockwork_calls (t : Trail Board) (cs : List Call) :
    (t.calls cs).bus.clockwork = t.bus.clockwork := by
  induction cs generalizing t with
  | nil => rfl
  | cons c cs ih => exact (ih (t.call c)).trans (c.program.run_clockwork t.cpu t.bus)

theorem Call.ends_on_memory (c : Call) (cpu : Cpu) (m : FullMemory) :
    c.Ends (fun _ => False) cpu m (c.program.run cpu m).result := by
  refine c.ends (fun _ _ h => h) fun fault s hs hexplains => ?_
  cases s with
  | failed f => exact hs
  | unread a => cases (Memory.busFault?_full a).symm.trans hexplains
  | unwritten a => cases (Memory.busFault?_full a).symm.trans hexplains

/-- The board may have been in use since: accesses do not change what it refuses. -/
theorem Call.ends_on_board (c : Call) (cpu : Cpu) {b b' : Board}
    (h : b'.clockwork = b.clockwork) : c.Ends b.Refuses cpu b' (c.program.run cpu b').result := by
  have hclock : (c.program.run cpu b').bus.clockwork = b.clockwork :=
    (c.program.run_clockwork cpu b').trans h
  refine c.ends ?_ fun fault s hs hexplains => ?_
  · rintro opcode pc ⟨-, r, ⟨-, h⟩ | ⟨-, h⟩⟩ <;> cases h
  · cases s with
    | failed f => exact hs.elim
    | unread a => exact (Board.refuses_of_read hexplains).of_clockwork hclock
    | unwritten a => exact (Board.refuses_of_write hexplains).of_clockwork hclock

end Cpu

namespace Unbounded

open Cpu (Call Trail)

/-- A call of the processor on unbounded integers does what it does on bytes and words, and on the
way nothing leaves its range: neither what the bus is handed nor what is left in the registers. -/
structure Walk.KeepsTo {β : Type} [Bus β] [CheckedBus β] (w : Walk β) (t : Trail β) (c : Call) :
    Prop where
  registers_eq : w.registers = t.cpu.registers
  bus_eq : w.bus = t.bus
  /-- All failures are faults, and so there is an operand wherever one is needed. -/
  result_eq : (w.ending c).result = (t.outcome c).result.mapError .fault
  requests_inRange : ∀ q ∈ (w.ending c).requests, q.InRange
  registers_inRange : (w.ending c).registers.InRange

theorem keepsTo_of_faithful {β : Type} [Bus β] [CheckedBus β] (hβ : CheckedBus.Faithful β)
    (t : Trail β) (cs : List Call) (c : Call) :
    ((⟨t.cpu.registers, t.bus⟩ : Walk β).calls cs).KeepsTo (t.calls cs) c := by
  rw [calls_eq hβ t cs]
  obtain ⟨hresult, hregisters, -, hrequests⟩ :=
    simulates_routine hβ c (t.calls cs).cpu (t.calls cs).bus
  refine ⟨rfl, rfl, ?_, hrequests, ?_⟩
  · rw [Except.map_id] at hresult
    exact hresult
  · rw [Walk.ending, hregisters]
    exact registers_inRange _

/-- **The processor never leaves its machine**, in runs of any length on a memory or on the board.
Computed on unbounded integers and against all checks, a call from registers in range hands over to
the bus, and leaves in the registers, only what is in range; and it ends as is known from the
opcode, except that a strict picture unit refuses accesses to some registers. -/
theorem stays_in_machine (r : Registers) (hr : r.InRange) :
    ∃ cpu : Cpu, cpu.registers = r ∧
      (∀ (m : FullMemory) (cs : List Call) (c : Call),
        let w := (⟨r, m⟩ : Walk FullMemory).calls cs
        let t := (⟨cpu, m, []⟩ : Trail FullMemory).calls cs
        w.KeepsTo t c ∧ c.Ends (fun _ => False) t.cpu t.bus (t.outcome c).result) ∧
      ∀ (b : Board) (cs : List Call) (c : Call),
        let w := (⟨r, b⟩ : Walk Board).calls cs
        let t := (⟨cpu, b, []⟩ : Trail Board).calls cs
        w.KeepsTo t c ∧ c.Ends b.Refuses t.cpu t.bus (t.outcome c).result := by
  obtain ⟨cpu, rfl⟩ := hr.exists_cpu
  refine ⟨cpu, rfl, fun m cs c => ⟨?_, ?_⟩, fun b cs c => ⟨?_, ?_⟩⟩
  · exact keepsTo_of_faithful (Memory.checks _) ⟨cpu, m, []⟩ cs c
  · exact c.ends_on_memory _ _
  · exact keepsTo_of_faithful Board.checks ⟨cpu, b, []⟩ cs c
  · exact c.ends_on_board _ (Trail.clockwork_calls ⟨cpu, b, []⟩ cs)

/-- The first step after a reset. -/
theorem stays_in_machine_reset : (⟨0, 0, 0, 0xFD, 0x8000, 0x24, 7, true⟩ : Registers).InRange ∧
    ∀ m : FullMemory, ((⟨⟨0, 0, 0, 0xFD, 0x8000, 0x24, 7, true⟩, m⟩ : Walk FullMemory).ending
      .step).registers.InRange := by
  have h : (⟨0, 0, 0, 0xFD, 0x8000, 0x24, 7, true⟩ : Registers).InRange := by
    constructor <;> decide
  obtain ⟨cpu, hcpu, hmemory, -⟩ := stays_in_machine _ h
  exact ⟨h, fun m => (hmemory m [] .step).1.registers_inRange⟩

end Unbounded

end Famicom
