import Famicom.Cpu.Step

/-! # Runs of the processor

From outside the processor is asked for a step or for an interrupt (`Cpu.Call`), one after the other
and whatever became of the last.  A `Trail` is where such calls have led, with all accesses that
were made on the way.  An `Order` is a call, or to start anew. -/

namespace Famicom.Cpu

/-- What the processor is asked to do from outside. -/
inductive Call where
  | step
  | nmi
  | irq
deriving Repr, DecidableEq

/-- The program that answers a call.  The result is its cycles, or nothing if it halts the
processor. -/
def Call.program : Call → Program (Option Nat)
  | step => Cpu.step
  | nmi => some <$> Cpu.nmi
  | irq => some <$> Cpu.irq

/-- Where calls have led. -/
structure Trail (β : Type) where
  cpu : Cpu
  bus : β
  /-- The accesses of all calls, in order. -/
  accesses : List Access := []

namespace Trail

variable {β : Type} [Bus β]

/-- The outcome of a call. -/
def outcome (t : Trail β) (c : Call) : Outcome (Option Nat) β := c.program.run t.cpu t.bus

/-- One more call. -/
def call (t : Trail β) (c : Call) : Trail β :=
  let o := t.outcome c
  ⟨o.cpu, o.bus, t.accesses ++ o.accesses⟩

/-- Calls one after the other. -/
def calls (t : Trail β) (cs : List Call) : Trail β := cs.foldl call t

omit [Bus β] in
/-- What only adds accesses keeps those that were made. -/
theorem foldl_prefix {ι : Type} {f : Trail β → ι → Trail β}
    (hf : ∀ t i, t.accesses <+: (f t i).accesses) (t : Trail β) (is : List ι) :
    t.accesses <+: (is.foldl f t).accesses := by
  induction is generalizing t with
  | nil => exact List.prefix_refl _
  | cons i is ih => exact (hf t i).trans (ih (f t i))

theorem accesses_prefix (t : Trail β) (cs : List Call) :
    t.accesses <+: (t.calls cs).accesses :=
  foldl_prefix (fun _ _ => List.prefix_append _ _) t cs

end Trail

/-! ### Orders -/

/-- A call, or to start anew at an address or where the reset vector leads. -/
inductive Order where
  | call (c : Call)
  | reset (pc : Option Word)
deriving Repr, DecidableEq

/-- The program that carries an order out.  The result is its cycles, or nothing if it halts the
processor or starts it anew. -/
def Order.program : Order → Program (Option Nat)
  | call c => c.program
  | reset pc => (fun _ => none) <$> Cpu.reset pc

namespace Trail

variable {β : Type} [Bus β]

/-- The outcome of an order. -/
def answer (t : Trail β) (o : Order) : Outcome (Option Nat) β := o.program.run t.cpu t.bus

/-- One more order. -/
def obey (t : Trail β) (o : Order) : Trail β :=
  let r := t.answer o
  ⟨r.cpu, r.bus, t.accesses ++ r.accesses⟩

end Trail

end Famicom.Cpu
