import Famicom.Cpu.Notice
import Famicom.Proofs.Cpu.Trail

/-! # An observer at work

An observer has a state of its own and is told of each thing at the moment it happens: that an
instruction begins before anything is done, each instruction byte after it has been fetched, and the
end of the instruction before anything else is begun (`Cpu.watchStep`, `Cpu.Order.watch`).

What the processor does is the same as without the observer, and what the observer is told are the
notices of what has happened, in order: this is `Cpu.Order.watch_eq`. -/

namespace Famicom

variable {α β σ : Type} [Bus β] (tell : σ → Notice → σ)

/-- Carries an activity out on a bus, with an observer who is told of each instruction byte. -/
def Activity.watch : Activity α → β → σ → Outcome α β × σ
  | done cpu value, bus, s => (⟨.ok value, cpu, bus, []⟩, s)
  | fail cpu fault, bus, s => (⟨.error fault, cpu, bus, []⟩, s)
  | fetch cpu next, bus, s =>
    match Bus.readFault? bus cpu.pc with
    | some fault => (⟨.error fault, cpu, bus, []⟩, s)
    | none =>
      let (b, bus) := Bus.read bus cpu.pc
      let (o, s) := (next b).watch bus (tell s (.fetched b))
      (o.after (.fetch cpu.pc b), s)
  | read cpu address next, bus, s =>
    match Bus.readFault? bus address with
    | some fault => (⟨.error fault, cpu, bus, []⟩, s)
    | none =>
      let (b, bus) := Bus.read bus address
      let (o, s) := (next b).watch bus s
      (o.after (.read address b), s)
  | write cpu address data next, bus, s =>
    match Bus.writeFault? bus address with
    | some fault => (⟨.error fault, cpu, bus, []⟩, s)
    | none =>
      let (o, s) := (next ()).watch (Bus.write bus address data) s
      (o.after (.write address data), s)

theorem Activity.watch_eq (t : Activity α) (bus : β) (s : σ) :
    t.watch tell bus s = (t.run bus, (t.run bus).fetchNotices.foldl tell s) := by
  induction t generalizing bus s with
  | done cpu a => rfl
  | fail cpu fault => rfl
  | fetch cpu next ih =>
      cases hf : Bus.readFault? bus cpu.pc with
      | some fault =>
          simp only [watch, run, hf]
          rfl
      | none =>
          simp only [watch, run, hf, ih]
          rfl
  | read cpu a next ih =>
      cases hf : Bus.readFault? bus a with
      | some fault =>
          simp only [watch, run, hf]
          rfl
      | none =>
          simp only [watch, run, hf, ih]
          rfl
  | write cpu a d next ih =>
      cases hf : Bus.writeFault? bus a with
      | some fault =>
          simp only [watch, run, hf]
          rfl
      | none =>
          simp only [watch, run, hf, ih]
          rfl

namespace Cpu

/-- Runs one instruction, with an observer. -/
def watchStep (cpu : Cpu) (bus : β) (s : σ) : Outcome (Option Nat) β × σ :=
  let (o, s) := (step cpu).watch tell bus (tell s (.began cpu))
  match o.result with
  | .ok (some cycles) => (o, tell s (.completed cycles))
  | _ => (o, s)

namespace Order

/-- Carries an order out, with an observer. -/
def watch (cpu : Cpu) (bus : β) (s : σ) : Order → Outcome (Option Nat) β × σ
  | call .step => watchStep tell cpu bus s
  | o => (o.program cpu).watch tell bus s

/-- The notices of an order that was given in a state. -/
def notices (cpu : Cpu) (outcome : Outcome (Option Nat) β) : Order → List Notice
  | call .step => outcome.stepNotices cpu
  | _ => outcome.fetchNotices

/-- **An observer changes nothing**, and is told what happens. -/
theorem watch_eq (o : Order) (cpu : Cpu) (bus : β) (s : σ) :
    o.watch tell cpu bus s =
      (o.program.run cpu bus, (o.notices cpu (o.program.run cpu bus)).foldl tell s) := by
  have hfetched := (o.program cpu).watch_eq tell bus s
  cases o with
  | call c =>
      cases c with
      | step =>
          rw [watch, watchStep, Activity.watch_eq]
          change _ = (step.run cpu bus, ((step.run cpu bus).stepNotices cpu).foldl tell s)
          unfold Program.run
          generalize (step cpu).run bus = o
          rcases o with ⟨_ | _ | n, cpu', bus', accesses⟩ <;>
            simp [Outcome.stepNotices, Outcome.completion, Outcome.fetchNotices, Outcome.fetched]
      | nmi => exact hfetched
      | irq => exact hfetched
  | reset pc => exact hfetched

omit [Bus β] in
theorem notices_of_ne_step {o : Order} (h : o ≠ .call .step) (cpu : Cpu)
    (outcome : Outcome (Option Nat) β) : o.notices cpu outcome = outcome.fetchNotices := by
  cases o with
  | call c =>
      cases c with
      | step => exact absurd rfl h
      | nmi | irq => rfl
  | reset pc => rfl

end Order

end Cpu

end Famicom
