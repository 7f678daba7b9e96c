import Famicom.Bus
import Famicom.Cpu.Basic

/-! # Activities of the processor

What the processor does is described without the bus.  An `Activity` is a tree: at each node the
processor asks the bus for something, and each answer leads to one further tree.  With every
request goes the state of the processor as it stands at that moment, since that state is what
remains if the bus refuses.  A `Program` is an activity that depends on the state it starts in;
programs are composed by `do`.

`Activity.run` connects an activity to a bus.  It yields what came out, the processor and the bus
as they were left, and the list of all accesses that were made, in order.  Facts that hold on every
bus are facts about the tree. -/

namespace Famicom

/-- What the processor does, as seen from the bus, until it ends with a value or with a fault. -/
inductive Activity (α : Type) where
  | done (cpu : Cpu) (value : α)
  | fail (cpu : Cpu) (fault : Fault)
  /-- Reads the instruction byte at the program counter. -/
  | fetch (cpu : Cpu) (next : Byte → Activity α)
  | read (cpu : Cpu) (address : Word) (next : Byte → Activity α)
  | write (cpu : Cpu) (address : Word) (data : Byte) (next : Unit → Activity α)

/-- An activity for each state to start in. -/
def Program (α : Type) : Type := Cpu → Activity α

namespace Activity

variable {α β γ : Type}

/-- The activity that goes on from the end of another. -/
def bind : Activity α → (Cpu → α → Activity β) → Activity β
  | done cpu value, f => f cpu value
  | fail cpu fault, _ => fail cpu fault
  | fetch cpu next, f => fetch cpu fun b => (next b).bind f
  | read cpu address next, f => read cpu address fun b => (next b).bind f
  | write cpu address data next, f => write cpu address data fun u => (next u).bind f

theorem bind_done (t : Activity α) : t.bind done = t := by
  induction t with
  | done => rfl
  | fail => rfl
  | fetch _ _ ih => simp only [bind, ih]
  | read _ _ _ ih => simp only [bind, ih]
  | write _ _ _ _ ih => simp only [bind, ih]

theorem bind_assoc (t : Activity α) (f : Cpu → α → Activity β) (g : Cpu → β → Activity γ) :
    (t.bind f).bind g = t.bind fun cpu a => (f cpu a).bind g := by
  induction t with
  | done => rfl
  | fail => rfl
  | fetch _ _ ih => simp only [bind, ih]
  | read _ _ _ ih => simp only [bind, ih]
  | write _ _ _ _ ih => simp only [bind, ih]

end Activity

namespace Program

instance : Monad Program where
  pure a := fun cpu => .done cpu a
  bind p f := fun cpu => (p cpu).bind fun cpu a => f a cpu

instance : LawfulMonad Program :=
  LawfulMonad.mk' Program
    (fun p => funext fun cpu => (p cpu).bind_done)
    (fun _ _ => rfl)
    (fun p _ _ => funext fun cpu => (p cpu).bind_assoc _ _)

instance : MonadStateOf Cpu Program where
  get := fun cpu => .done cpu cpu
  set cpu := fun _ => .done cpu ()
  modifyGet f := fun cpu => .done (f cpu).2 (f cpu).1

/-- Ends with a fault. -/
def fail {α : Type} (fault : Fault) : Program α := fun cpu => .fail cpu fault

/-- Reads the instruction byte at the program counter and moves past it. -/
def fetch : Program Byte := fun cpu =>
  .fetch cpu fun b => .done { cpu with pc := cpu.pc + 1 } b

/-- Reads the two instruction bytes of a word, the low byte first. -/
def fetchWord : Program Word := do
  let low ← fetch
  let high ← fetch
  return .ofBytes high low

/-- Reads a byte. -/
def read (address : Word) : Program Byte := fun cpu => .read cpu address (.done cpu)

/-- Reads a word, the low byte first. -/
def readWord (address : Word) : Program Word := do
  let low ← read address
  let high ← read (address + 1)
  return .ofBytes high low

/-- Reads a word whose high byte is in the same page as its low byte. -/
def readPointer (address : Word) : Program Word := do
  let low ← read address
  let high ← read address.nextInPage
  return .ofBytes high low

/-- Writes a byte. -/
def write (address : Word) (data : Byte) : Program Unit := fun cpu =>
  .write cpu address data fun _ => .done cpu ()

/-- Puts a byte on the stack. -/
def push (data : Byte) : Program Unit := do
  let cpu ← get
  write (.stackCell cpu.sp) data
  set { cpu with sp := cpu.sp - 1 }

/-- Takes a byte from the stack. -/
def pull : Program Byte := do
  modify fun cpu => { cpu with sp := cpu.sp + 1 }
  let cpu ← get
  read (.stackCell cpu.sp)

/-- Puts a word on the stack, the high byte first. -/
def pushWord (data : Word) : Program Unit := do
  push data.high
  push data.low

/-- Takes a word from the stack, the low byte first. -/
def pullWord : Program Word := do
  let low ← pull
  let high ← pull
  return .ofBytes high low

end Program

/-- One access of the processor to the bus. -/
inductive Access where
  | fetch (address : Word) (data : Byte)
  | read (address : Word) (data : Byte)
  | write (address : Word) (data : Byte)
deriving Repr, DecidableEq

/-- The instruction byte of an access, if it is one. -/
def Access.fetched? : Access → Option Byte
  | fetch _ data => some data
  | _ => none

/-- How an activity ended on a bus. -/
structure Outcome (α β : Type) where
  result : Except Fault α
  cpu : Cpu
  bus : β
  /-- The accesses that were carried out, in order. -/
  accesses : List Access

/-- An outcome with one more access before the others. -/
def Outcome.after {α β : Type} (access : Access) (o : Outcome α β) : Outcome α β :=
  { o with accesses := access :: o.accesses }

/-- The outcome of going on where another activity ended. -/
def Outcome.andThen {α β γ : Type} (o : Outcome α β) (f : Cpu → α → β → Outcome γ β) :
    Outcome γ β :=
  match o with
  | ⟨.error fault, cpu, bus, accesses⟩ => ⟨.error fault, cpu, bus, accesses⟩
  | ⟨.ok a, cpu, bus, accesses⟩ =>
    let p := f cpu a bus
    { p with accesses := accesses ++ p.accesses }

theorem Outcome.after_andThen {α β γ : Type} (access : Access) (o : Outcome α β)
    (f : Cpu → α → β → Outcome γ β) :
    (o.after access).andThen f = (o.andThen f).after access := by
  rcases o with ⟨_ | _, _, _, _⟩ <;> rfl

/-- The instruction bytes that were fetched, in order. -/
def Outcome.fetched {α β : Type} (o : Outcome α β) : List Byte :=
  o.accesses.filterMap Access.fetched?

/-- Carries an activity out on a bus. -/
def Activity.run {α β : Type} [Bus β] : Activity α → β → Outcome α β
  | done cpu value, bus => ⟨.ok value, cpu, bus, []⟩
  | fail cpu fault, bus => ⟨.error fault, cpu, bus, []⟩
  | fetch cpu next, bus =>
    match Bus.readFault? bus cpu.pc with
    | some fault => ⟨.error fault, cpu, bus, []⟩
    | none =>
      let (b, bus) := Bus.read bus cpu.pc
      ((next b).run bus).after (.fetch cpu.pc b)
  | read cpu address next, bus =>
    match Bus.readFault? bus address with
    | some fault => ⟨.error fault, cpu, bus, []⟩
    | none =>
      let (b, bus) := Bus.read bus address
      ((next b).run bus).after (.read address b)
  | write cpu address data next, bus =>
    match Bus.writeFault? bus address with
    | some fault => ⟨.error fault, cpu, bus, []⟩
    | none =>
      ((next ()).run (Bus.write bus address data)).after (.write address data)

/-- To carry two activities out one after the other is to carry out their composition. -/
theorem Activity.run_bind {α β γ : Type} [Bus β] (t : Activity α) (f : Cpu → α → Activity γ)
    (bus : β) :
    (t.bind f).run bus = (t.run bus).andThen fun cpu a bus => (f cpu a).run bus := by
  induction t generalizing bus with
  | done => rfl
  | fail => rfl
  | fetch cpu next ih =>
    simp only [Activity.bind, run]
    split
    · rfl
    · rw [ih, Outcome.after_andThen]
  | read cpu address next ih =>
    simp only [Activity.bind, run]
    split
    · rfl
    · rw [ih, Outcome.after_andThen]
  | write cpu address data next ih =>
    simp only [Activity.bind, run]
    split
    · rfl
    · rw [ih, Outcome.after_andThen]

/-- Carries a program out on a bus. -/
def Program.run {α β : Type} [Bus β] (p : Program α) (cpu : Cpu) (bus : β) : Outcome α β :=
  (p cpu).run bus

namespace Program

variable {α β γ : Type} [Bus β] (cpu : Cpu) (bus : β)

@[simp] theorem run_pure (a : α) : (pure a : Program α).run cpu bus = ⟨.ok a, cpu, bus, []⟩ := rfl

@[simp] theorem run_bind (p : Program α) (f : α → Program γ) :
    (p >>= f).run cpu bus = (p.run cpu bus).andThen fun cpu a bus => (f a).run cpu bus :=
  (p cpu).run_bind _ bus

@[simp] theorem run_fail (fault : Fault) :
    (fail fault : Program α).run cpu bus = ⟨.error fault, cpu, bus, []⟩ := rfl

@[simp] theorem run_get : (get : Program Cpu).run cpu bus = ⟨.ok cpu, cpu, bus, []⟩ := rfl

@[simp] theorem run_set (c : Cpu) :
    (set c : Program PUnit).run cpu bus = ⟨.ok ⟨⟩, c, bus, []⟩ := rfl

@[simp] theorem run_modify (f : Cpu → Cpu) :
    (modify f : Program PUnit).run cpu bus = ⟨.ok ⟨⟩, f cpu, bus, []⟩ := rfl

end Program

end Famicom
