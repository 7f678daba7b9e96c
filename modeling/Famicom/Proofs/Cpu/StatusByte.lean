import Famicom.Proofs.Cpu.Refusal
import Famicom.Proofs.Cpu.Safety
import Famicom.Proofs.Cpu.WholeStep

/-! # The status byte

Two of the bits of the status byte belong to no flag that an instruction works on.  The unused one is
always set, and the break flag, which the processor does not have, is told only by the copies on the
stack.  So the flags of a processor that has been reset are *settled* (`Flags.Settled`): all that
changes flags leaves these two alone or takes all of them from a byte without its two bits, whatever
that byte is (`Mnemonic.settles`).

`Program.Settles` carries this through programs, to every access that they make and to every end that
they come to, and `Cpu.Reached` through all that can be asked of a processor.  What is on the stack of
such a processor is known: a copy by an instruction differs from the flags in the break flag, and one
by an interrupt does not differ (`Cpu.status_byte`). -/

namespace Famicom

/-! ### Flags -/

namespace Flags

/-- The two flags that do not count are as they should be. -/
def Settled (f : Flags) : Prop := f.unused = true ∧ f.brk = false

theorem settled_initial : initial.Settled := ⟨rfl, rfl⟩

theorem settled_pulled (b : Byte) : (pulled b).Settled := ⟨rfl, rfl⟩

section
variable {f : Flags} (h : f.Settled)
include h

theorem Settled.shown_eq : f.shown = f.toByte := by
  rw [shown, ← h.1]

theorem Settled.pushedByInterrupt_eq : f.pushedByInterrupt = f.toByte := by
  rw [pushedByInterrupt, ← h.1, ← h.2]

theorem Settled.pushedBySoftware_eq : f.pushedBySoftware = f.toByte ||| 0x10 := by
  obtain ⟨c, z, i, d, b, u, v, n⟩ := f
  obtain ⟨rfl, rfl⟩ : u = true ∧ b = false := h
  revert c z i d v n
  decide

end

end Flags

/-! ### Programs -/

namespace Program

variable {α γ : Type}

/-- If the flags are settled when a program begins, they are whenever it asks for something and
however it ends. -/
def Settles (p : Program α) : Prop :=
  ∀ cpu, cpu.flags.Settled →
    (p cpu).Holds (fun c _ => c.flags.Settled) fun c _ => c.flags.Settled

theorem Settles.bind {p : Program γ} {f : γ → Program α} (hp : p.Settles) (hf : ∀ a, (f a).Settles) :
    (p >>= f).Settles :=
  fun cpu h => holds_bind.mpr ((hp cpu h).mono (fun _ _ h => h) fun c a hc => hf a c hc)

theorem Settles.map {p : Program γ} (hp : p.Settles) (f : γ → α) : (f <$> p).Settles :=
  fun cpu h => holds_map.mpr (hp cpu h)

theorem settles_pure (a : α) : (pure a : Program α).Settles := fun _ h => h

theorem settles_fail (fault : Fault) : (fail fault : Program α).Settles := fun _ h => h

theorem settles_get_bind {f : Cpu → Program α} (hf : ∀ c, c.flags.Settled → (f c).Settles) :
    (get >>= f).Settles :=
  fun cpu h => hf cpu h cpu h

theorem settles_set {c : Cpu} (h : c.flags.Settled) : (set c : Program PUnit).Settles := fun _ _ => h

theorem settles_modify {f : Cpu → Cpu} (hf : ∀ c, c.flags.Settled → (f c).flags.Settled) :
    (modify f : Program PUnit).Settles := hf

theorem settles_fetch : fetch.Settles := fun _ h => ⟨h, fun _ => h⟩

theorem settles_read (a : Word) : (read a).Settles := fun _ h => ⟨h, fun _ => h⟩

theorem settles_write (a : Word) (d : Byte) : (write a d).Settles := fun _ h => ⟨h, h⟩

theorem settles_readWord (a : Word) : (readWord a).Settles :=
  (settles_read _).bind fun _ => (settles_read _).bind fun _ => settles_pure _

theorem settles_push (d : Byte) : (push d).Settles :=
  settles_get_bind fun _ h => (settles_write _ _).bind fun _ => settles_set h

theorem settles_pull : pull.Settles := by
  refine Settles.bind (settles_modify fun _ h => h) fun _ => settles_get_bind fun _ _ => ?_
  exact settles_read _

theorem settles_pushWord (w : Word) : (pushWord w).Settles :=
  (settles_push _).bind fun _ => settles_push _

theorem settles_pullWord : pullWord.Settles :=
  settles_pull.bind fun _ => settles_pull.bind fun _ => settles_pure _

theorem settles_jumpTo (a : Word) : (jumpTo a).Settles := settles_modify fun _ h => h

theorem settles_enterHandler (vector back : Word) (status : Flags → Byte) :
    (enterHandler vector back status).Settles := by
  refine (settles_pushWord back).bind fun _ => settles_get_bind fun _ _ => ?_
  refine (settles_push _).bind fun _ => Settles.bind (settles_modify fun _ h => h) fun _ => ?_
  exact (settles_readWord vector).bind settles_jumpTo

end Program

/-! ### Instructions -/

open Program

theorem Mode.settles_operand (m : Mode) : m.operand.Settles := by
  intro cpu h
  cases m <;> simp [Mode.operand, fetchWord, readPointer, h]

theorem Operand.settles_load (o : Operand) : o.load.Settles := by
  intro cpu h
  cases o <;> simp [Operand.load, h]

theorem Operand.settles_store (o : Operand) (d : Byte) : (o.store d).Settles := by
  intro cpu h
  cases o <;> simp [Operand.store, h]

/-- What an operation does with flags keeps them settled. -/
def Operation.Settles : Operation → Prop
  | load effect | pull effect => ∀ b c, c.flags.Settled → (effect b c).flags.Settled
  | alter change effect =>
    (∀ b f, f.Settled → (change b f).2.Settled) ∧
      ∀ b c, c.flags.Settled → (effect b c).flags.Settled
  | internal effect => ∀ c, c.flags.Settled → (effect c).flags.Settled
  | store _ | skip | branch _ | push _ | jump | call | returnFromCall | returnFromInterrupt
  | softwareInterrupt => True

theorem Mnemonic.settles (m : Mnemonic) : m.operation.Settles := by
  cases m with
  | plp => exact fun b _ _ => Flags.settled_pulled b
  | asl | lsr | rol | ror | inc | dec | slo | sre | rla | rra | isc | dcp =>
      exact ⟨fun _ _ h => h, fun _ _ h => h⟩
  | lda | ldx | ldy | lax | ora | and | eor | adc | sbc | cmp | cpx | cpy | bit | pla =>
      exact fun _ _ h => h
  | nop | tax | tay | tsx | txa | tya | txs | inx | iny | dex | dey | clc | sec | cli | sei | cld
  | sed | clv => exact fun _ h => h
  | _ => exact trivial

theorem Operation.Settles.perform {op : Operation} (h : op.Settles) (o : Operand) :
    (op.perform o).Settles := by
  cases op with
  | load effect =>
      exact o.settles_load.bind fun b => Settles.bind (settles_modify (h b)) fun _ => settles_pure 0
  | store value =>
      exact settles_get_bind fun c _ => (o.settles_store _).bind fun _ => settles_pure 0
  | alter change effect =>
      refine o.settles_load.bind fun b => settles_get_bind fun c hc => ?_
      have hflags := h.1 b c.flags hc
      rcases hchange : change b c.flags with ⟨d, flags⟩
      rw [hchange] at hflags
      refine Settles.bind (settles_set hflags) fun _ => (o.settles_store d).bind fun _ => ?_
      exact Settles.bind (settles_modify (h.2 d)) fun _ => settles_pure 0
  | skip => exact settles_pure 0
  | internal effect => exact Settles.bind (settles_modify h) fun _ => settles_pure 0
  | branch taken =>
      refine o.settles_load.bind fun distance => settles_get_bind fun c _ => ?_
      split
      · exact (settles_jumpTo _).bind fun _ => settles_pure _
      · exact settles_pure 0
  | push value =>
      exact settles_get_bind fun c _ => (settles_push _).bind fun _ => settles_pure 0
  | pull effect =>
      exact settles_pull.bind fun b => Settles.bind (settles_modify (h b)) fun _ => settles_pure 0
  | jump => exact (settles_jumpTo _).bind fun _ => settles_pure 0
  | call =>
      refine settles_get_bind fun c _ => (settles_pushWord _).bind fun _ => ?_
      exact (settles_jumpTo _).bind fun _ => settles_pure 0
  | returnFromCall =>
      exact settles_pullWord.bind fun w => (settles_jumpTo _).bind fun _ => settles_pure 0
  | returnFromInterrupt =>
      refine settles_pull.bind fun b => Settles.bind (settles_modify fun _ _ => ?_) fun _ => ?_
      · exact Flags.settled_pulled b
      · exact settles_pullWord.bind fun w => (settles_jumpTo _).bind fun _ => settles_pure 0
  | softwareInterrupt =>
      refine settles_get_bind fun c _ => ?_
      exact (settles_enterHandler _ _ _).bind fun _ => settles_pure 0

namespace Cpu

theorem settles_spend (n : Nat) : (spend n).Settles := settles_modify fun _ h => h

theorem settles_execute (i : Instruction) : (execute i).Settles :=
  i.mode.settles_operand.bind fun o => (i.mnemonic.settles.perform o).bind fun _ =>
    (settles_spend _).bind fun _ => settles_pure _

theorem settles_step : step.Settles := by
  refine settles_get_bind fun start _ => settles_fetch.bind fun opcode => ?_
  split
  · exact settles_pure none
  · split
    · exact settles_fail _
    · exact (settles_execute _).map _

theorem settles_interrupt (vector : Word) : (interrupt vector).Settles :=
  settles_get_bind fun _ _ => (settles_enterHandler _ _ _).bind fun _ =>
    (settles_spend _).bind fun _ => settles_pure _

theorem settles_irq : irq.Settles := by
  refine settles_get_bind fun c _ => ?_
  split
  · exact settles_pure 0
  · exact settles_interrupt irqVector

/-- A reset sets the flags at its end. -/
theorem reset_flags (pc : Option Word) (cpu : Cpu) :
    (reset pc cpu).Holds (fun c _ => c.flags = cpu.flags) fun c _ => c.flags = .initial := by
  cases pc with
  | none => exact ⟨rfl, fun _ => ⟨rfl, fun _ => rfl⟩⟩
  | some pc => exact rfl

theorem settles_reset (pc : Option Word) : (reset pc).Settles := by
  intro cpu h
  refine (reset_flags pc cpu).mono (fun c _ hc => ?_) fun c _ hc => ?_
  · rwa [hc]
  · rw [hc]
    exact Flags.settled_initial

/-- **All that a processor can be asked keeps its flags settled.** -/
theorem Order.settles (o : Order) : o.program.Settles := by
  cases o with
  | call c =>
      cases c with
      | step => exact settles_step
      | nmi => exact (settles_interrupt nmiVector).map some
      | irq => exact settles_irq.map some
  | reset pc => exact (settles_reset pc).map _

end Cpu

/-! ### What is stored -/

/-- The access stores a byte. -/
def Access.isStore : Access → Bool
  | write _ _ => true
  | fetch _ _ | read _ _ => false

namespace Outcome

variable {α β : Type} (o : Outcome α β)

/-- The accesses that have stored a byte, in order. -/
def stores : List Access := o.accesses.filter Access.isStore

/-- These accesses have stored bytes and no others; if something has failed, then perhaps only the
first of them. -/
def Stores (ws : List Access) : Prop := o.stores <+: ws ∧ ∀ a, o.result = .ok a → o.stores = ws

variable {o} {ws : List Access}

theorem Stores.after_fetch (h : o.Stores ws) (a : Word) (b : Byte) :
    (o.after (.fetch a b)).Stores ws := h

theorem Stores.after_read (h : o.Stores ws) (a : Word) (b : Byte) :
    (o.after (.read a b)).Stores ws := h

theorem Stores.after_write (h : o.Stores ws) (a : Word) (d : Byte) :
    (o.after (.write a d)).Stores (.write a d :: ws) :=
  ⟨List.cons_prefix_cons.mpr ⟨rfl, h.1⟩, fun v hv => congrArg _ (h.2 v hv)⟩

theorem stores_of_error {fault : Fault} {cpu : Cpu} {bus : β} :
    (⟨.error fault, cpu, bus, []⟩ : Outcome α β).Stores ws :=
  ⟨List.nil_prefix, fun _ h => by cases h⟩

end Outcome

namespace Activity

variable {α β : Type}

/-- Whatever the bus answers, these accesses store bytes and no others, as far as the activity
goes on. -/
def Stores : List Access → Activity α → Prop
  | ws, done _ _ => ws = []
  | _, fail _ _ => True
  | ws, fetch _ next | ws, read _ _ next => ∀ b, (next b).Stores ws
  | ws, write _ a d next => ∃ rest, ws = .write a d :: rest ∧ (next ()).Stores rest

theorem Stores.run [Bus β] {t : Activity α} {ws : List Access} (h : t.Stores ws) (bus : β) :
    (t.run bus).Stores ws := by
  induction t generalizing ws bus with
  | done c a =>
      cases h
      exact ⟨List.prefix_refl _, fun _ _ => rfl⟩
  | fail c fault => exact Outcome.stores_of_error
  | fetch c next ih =>
      unfold Activity.run
      split
      · exact Outcome.stores_of_error
      · exact (ih _ (h _) _).after_fetch _ _
  | read c a next ih =>
      unfold Activity.run
      split
      · exact Outcome.stores_of_error
      · exact (ih _ (h _) _).after_read _ _
  | write c a d next ih =>
      obtain ⟨rest, rfl, hnext⟩ := h
      unfold Activity.run
      split
      · exact Outcome.stores_of_error
      · exact (ih () hnext _).after_write a d

end Activity

namespace Cpu

theorem interrupt_stores (vector : Word) (cpu : Cpu) :
    (interrupt vector cpu).Stores
      (stackWrites cpu.sp [cpu.pc.high, cpu.pc.low, cpu.flags.pushedByInterrupt]) :=
  ⟨_, rfl, _, rfl, _, rfl, fun _ _ => rfl⟩

section
variable {opcode : Byte} {i : Instruction} (hd : Instruction.decode opcode = some i) (cpu : Cpu)
include hd

theorem implied_of_decode (hi : i.mnemonic ∈ [.php, .brk]) : i.mode = .implied := by
  refine Instruction.of_decode (P := fun i => i.mnemonic ∈ [.php, .brk] → i.mode = .implied) ?_ hd hi
  decide +kernel

theorem php_stores (hi : i.mnemonic = .php) :
    ((some <$> execute i) cpu).Stores (stackWrites cpu.sp [cpu.flags.pushedBySoftware]) := by
  have hmode : i.mode = .implied := implied_of_decode hd (by simp [hi])
  obtain ⟨mnemonic, mode, documented⟩ := i
  cases hi
  cases hmode
  exact ⟨_, rfl, rfl⟩

theorem brk_stores (hi : i.mnemonic = .brk) :
    ((some <$> execute i) cpu).Stores (stackWrites cpu.sp
      [(cpu.pc + 1).high, (cpu.pc + 1).low, cpu.flags.pushedBySoftware]) := by
  have hmode : i.mode = .implied := implied_of_decode hd (by simp [hi])
  obtain ⟨mnemonic, mode, documented⟩ := i
  cases hi
  cases hmode
  exact ⟨_, rfl, _, rfl, _, rfl, fun _ _ => rfl⟩

end

/-- Only the first opcode is that of a break. -/
theorem opcode_of_brk {opcode : Byte} {i : Instruction} (hd : Instruction.decode opcode = some i)
    (hi : i.mnemonic = .brk) : opcode = 0 := by
  have hall : ∀ opcode : Byte,
      (Instruction.decode opcode).all (fun i => i.mnemonic ≠ .brk) ∨ opcode = 0 := by
    decide +kernel
  rcases hall opcode with h | h
  · rw [hd, Option.all_some, decide_eq_true_eq] at h
    exact absurd hi h
  · exact h

section
variable {β : Type} [Bus β] {cpu : Cpu} {bus : β} {opcode : Byte}

/-- What is stored by a step is stored after the opcode. -/
theorem step_stores {ws : List Access} (hf : Fetches cpu bus opcode)
    (h : (dispatch cpu opcode { cpu with pc := cpu.pc + 1 }).Stores ws) :
    (step.run cpu bus).Stores ws := by
  obtain ⟨hfault, rfl⟩ := hf
  rw [step_run_of_fetched hfault]
  exact (h.run _).after_fetch _ _

end

/-! ### Runs -/

/-- What a processor can come to once it has been reset.  It may be given any orders, and whatever
becomes of them; between them anything may happen to the bus and to all registers but the flags. -/
inductive Reached {β : Type} [Bus β] : Cpu → β → Prop
  | reset (pc : Option Word) (cpu : Cpu) (bus : β)
      (h : ((reset pc).run cpu bus).result = .ok ()) :
      Reached ((reset pc).run cpu bus).cpu ((reset pc).run cpu bus).bus
  | order (o : Order) {cpu : Cpu} {bus : β} (h : Reached cpu bus) :
      Reached (o.program.run cpu bus).cpu (o.program.run cpu bus).bus
  | between {cpu cpu' : Cpu} {bus : β} (h : Reached cpu bus) (hflags : cpu'.flags = cpu.flags)
      (bus' : β) : Reached cpu' bus'

/-- A status byte on the stack is that of the flags, and the break flag tells where it is from: it
is set by an instruction, and clear by an interrupt. -/
structure StoresStatus {β : Type} [Bus β] (cpu : Cpu) (bus : β) : Prop where
  php : ∀ opcode i, Fetches cpu bus opcode → Instruction.decode opcode = some i →
    i.mnemonic = .php →
      (step.run cpu bus).Stores (stackWrites cpu.sp [cpu.flags.toByte ||| 0x10])
  brk : ∀ opcode i, Fetches cpu bus opcode → Instruction.decode opcode = some i →
    i.mnemonic = .brk →
      (step.run cpu bus).Stores (if cpu.breakHalts then [] else
        stackWrites cpu.sp [(cpu.pc + 2).high, (cpu.pc + 2).low, cpu.flags.toByte ||| 0x10])
  nmi : (nmi.run cpu bus).Stores
    (stackWrites cpu.sp [cpu.pc.high, cpu.pc.low, cpu.flags.toByte])
  irq : (irq.run cpu bus).Stores (if cpu.flags.interruptDisable then [] else
    stackWrites cpu.sp [cpu.pc.high, cpu.pc.low, cpu.flags.toByte])

section
variable {β : Type} [Bus β] {cpu : Cpu} {bus : β}

/-- What a program comes to from settled flags. -/
theorem settled_run {α : Type} {p : Program α} (hp : p.Settles) (h : cpu.flags.Settled) :
    (p.run cpu bus).cpu.flags.Settled := by
  cases hr : (p.run cpu bus).result with
  | ok a => exact of_ok (hp cpu h) hr
  | error fault =>
      obtain ⟨s, hs, -⟩ := of_error (hp cpu h) hr
      exact hs

/-- A reset that comes to its end settles the flags, whatever they have been. -/
theorem settled_of_reset {pc : Option Word} (h : ((Cpu.reset pc).run cpu bus).result = .ok ()) :
    ((Cpu.reset pc).run cpu bus).cpu.flags.Settled := by
  rw [of_ok (reset_flags pc cpu) h]
  exact Flags.settled_initial

theorem Reached.settled (h : Reached cpu bus) : cpu.flags.Settled := by
  induction h with
  | reset pc cpu bus h => exact settled_of_reset h
  | order o h ih => exact settled_run o.settles ih
  | between h hflags bus' ih => rwa [hflags]

theorem storesStatus_of_settled (h : cpu.flags.Settled) : StoresStatus cpu bus where
  php opcode i hf hd hi := by
    have hgo : ¬ (opcode = 0 ∧ cpu.breakHalts) := by
      rintro ⟨rfl, -⟩
      cases decode_zero.symm.trans hd
      cases hi
    rw [← h.pushedBySoftware_eq]
    refine step_stores hf ?_
    rw [dispatch_of_known hd hgo]
    exact php_stores hd { cpu with pc := cpu.pc + 1 } hi
  brk opcode i hf hd hi := by
    cases opcode_of_brk hd hi
    by_cases hhalts : cpu.breakHalts
    · rw [if_pos hhalts]
      refine step_stores hf ?_
      rw [dispatch_of_halt ⟨rfl, hhalts⟩]
      rfl
    · have hpc : cpu.pc + 2 = cpu.pc + 1 + 1 := (BitVec.add_assoc cpu.pc 1 1).symm
      rw [if_neg hhalts, ← h.pushedBySoftware_eq, hpc]
      refine step_stores hf ?_
      rw [dispatch_of_known hd fun hh => hhalts hh.2]
      exact brk_stores hd { cpu with pc := cpu.pc + 1 } hi
  nmi := by
    rw [← h.pushedByInterrupt_eq]
    exact (interrupt_stores nmiVector cpu).run bus
  irq := by
    rw [← h.pushedByInterrupt_eq]
    refine Activity.Stores.run ?_ bus
    show Activity.Stores _ ((if cpu.flags.interruptDisable then pure 0 else interrupt irqVector :
      Program Nat) cpu)
    split
    · rfl
    · exact interrupt_stores irqVector cpu

end

/-- **The status byte.**  On a memory and on a board every reset comes to its end.  Whatever is
asked of a processor after that, and wherever it is interrupted by the bus, the unused flag is set and
the break flag is clear, so that the status byte is that of the flags.  A status byte that an
instruction puts on the stack is that of the flags with the break flag set, and one that an interrupt
puts there is that of the flags. -/
theorem status_byte :
    (∀ pc cpu (m : FullMemory),
      Reached ((Cpu.reset pc).run cpu m).cpu ((Cpu.reset pc).run cpu m).bus) ∧
    (∀ pc cpu (b : Board),
      Reached ((Cpu.reset pc).run cpu b).cpu ((Cpu.reset pc).run cpu b).bus) ∧
    ∀ (β : Type) [Bus β] (cpu : Cpu) (bus : β), Reached cpu bus →
      cpu.flags.unused = true ∧ cpu.flags.brk = false ∧ cpu.statusByte = cpu.flags.toByte ∧
        (∀ o : Order, (o.program cpu).Holds (fun c _ => c.flags.unused = true ∧ c.flags.brk = false)
          fun c _ => c.flags.unused = true ∧ c.flags.brk = false) ∧
        StoresStatus cpu bus := by
  refine ⟨fun pc cpu m => ?_, fun pc cpu b => ?_, fun β _ cpu bus h => ?_⟩
  · obtain ⟨u, hu⟩ := done_of_full (reset_holds pc cpu) m
    exact .reset pc cpu m hu
  · have hgranted : (Cpu.reset pc cpu).Holds (fun _ s => s.Granted) fun _ _ => True := by
      cases pc with
      | none => exact ⟨⟨trivial, trivial⟩, fun _ => ⟨⟨trivial, trivial⟩, fun _ => trivial⟩⟩
      | some pc => exact trivial
    obtain ⟨u, hu⟩ := hgranted.done_on_board b
    exact .reset pc cpu b hu
  · have hsettled := h.settled
    exact ⟨hsettled.1, hsettled.2, hsettled.shown_eq, fun o => o.settles cpu hsettled,
      storesStatus_of_settled hsettled⟩

/-- There are such processors: here one takes its flags from a byte with all bits set, and two bits
less go to the stack with the next interrupt. -/
theorem status_byte_plp :
    ∃ (cpu : Cpu) (m : FullMemory), Reached cpu m ∧ cpu.flags = .pulled 0xFF ∧
      cpu.statusByte = 0xEF ∧
        (nmi.run cpu m).Stores (stackWrites cpu.sp [cpu.pc.high, cpu.pc.low, 0xEF]) := by
  obtain ⟨m, hplp, hfull⟩ : ∃ m : FullMemory, m.busRead 0 = 0x28 ∧ m.busRead 0x01FE = 0xFF := by
    refine ⟨.ofFn fun i => if i = 0 then 0x28 else 0xFF, ?_⟩
    simp only [Memory.busRead_ofFn]
    decide
  obtain ⟨hreset, -, hall⟩ := status_byte
  let start : Cpu := { sp := 0xFD, flags := .initial, cycles := 7 }
  have hstart : Reached start m := hreset (some 0) {} m
  have hd : Instruction.decode (m.busRead start.pc) = some ⟨.plp, .implied, true⟩ := by
    rw [show start.pc = 0 from rfl, hplp]
    decide
  have hflags : (step.run start m).cpu.flags = .pulled 0xFF := by
    have hcell : Word.stackCell (start.sp + 1) = 0x01FE := by decide
    rw [step_performed hd (not_halt_of_decode hd (by decide)), ← hfull, ← hcell]
    rfl
  have hplped : Reached (step.run start m).cpu (step.run start m).bus :=
    hstart.order (.call .step)
  obtain ⟨-, -, hstatus, -, hstores⟩ := hall FullMemory _ _ hplped
  have hnmi := hstores.nmi
  rw [hflags] at hstatus hnmi
  exact ⟨_, _, hplped, hflags, hstatus, hnmi⟩

end Cpu

end Famicom
