import Famicom.Proofs.Console.Deed

/-! # Histories of a console

From outside a console is used by calls: a cartridge is put in, the console is reset, stepped or
run, and its board is read and written (`Call`).  A history is a list of calls made one after the
other on a console that has been switched on; `Session.calls` yields the console it leads to and a
log, in which each restart and each step stands in order, the step with the console it was made on.
Everything that is counted over a history is counted in its log.

A run makes some number of steps (`Console.runSteps`), and to run is to make them
(`Console.run_console`), so a run leads to the same console and the same log as that many calls of a
step (`Session.call_run`). -/

namespace Famicom

namespace Console

/-- The console after a number of steps, whether they are completed or not. -/
def steps (c : Console) : Nat → Console
  | 0 => c
  | n + 1 => c.step.console.steps n

/-- The number of steps that a run makes; one that fails or halts is the last and counts. -/
def runSteps {σ : Type} (hooks : Hooks σ) (limit : Option Int) (steps : Nat) (console : Console)
    (s : σ) : Nat → Nat
  | 0 => 0
  | fuel + 1 =>
    if atLimit limit steps then 0
    else
      match hooks.ask s with
      | (true, _) => 0
      | (false, s) =>
        match console.step with
        | ⟨.ok (some cycles), console, notices⟩ =>
          let s := hooks.showStep console.board.ppu.frame cycles (hooks.tell notices s)
          runSteps hooks limit (steps + 1) console s fuel + 1
        | _ => 1

theorem runFrom_console {σ : Type} (hooks : Hooks σ) (limit : Option Int) (n : Nat) (c : Console)
    (s : σ) (fuel : Nat) :
    (runFrom hooks limit n c s fuel).2.1 = c.steps (runSteps hooks limit n c s fuel) := by
  induction fuel generalizing n c s with
  | zero => rfl
  | succ fuel ih =>
      have hs : c.steps 1 = c.step.console := rfl
      rw [runFrom, runSteps]
      cases atLimit limit n with
      | true => rfl
      | false =>
          rcases hooks.ask s with ⟨_ | _, s⟩
          · rcases hstep : c.step with ⟨_ | _ | cycles, console, notices⟩
            · show _ = c.steps 1
              rw [hs, hstep]
              rfl
            · show _ = c.steps 1
              rw [hs, hstep]
              rfl
            · show _ = c.step.console.steps _
              rw [hstep]
              exact ih ..
          · rfl

theorem run_console {σ : Type} (hooks : Hooks σ) (limit : Option Int) (fuel : Nat) (c : Console)
    (s : σ) : (run hooks limit fuel c s).2.1 = c.steps (runSteps hooks limit 0 c s fuel) :=
  runFrom_console hooks limit 0 c s fuel

end Console

/-! ### Calls and logs -/

/-- What a console is asked to do from outside. -/
inductive Call : Type 1 where
  | insert (image : Array Byte) (pc : Option Word)
  | reset (pc : Option Word)
  | step
  | run {σ : Type} (hooks : Console.Hooks σ) (limit : Option Int) (fuel : Nat) (s : σ)
  | read (address : Int)
  | write (address data : Int)

/-- What the log of a history notes. -/
inductive Entry where
  /-- The console starts anew. -/
  | restart
  /-- The console makes a step. -/
  | step (start : Console)

namespace Call

/-- The console after a call. -/
def console : Call → Console → Console
  | insert image pc, c => (c.insert image pc).console
  | reset pc, c => (c.reset pc).console
  | step, c => c.step.console
  | run hooks limit fuel s, c => (c.run hooks limit fuel s).2.1
  | read address, c => { c with board := (c.board.readAt address).2 }
  | write address data, c => { c with board := (c.board.writeAt address data).2 }

/-- The entry for a call that starts the console anew unless it fails. -/
def restartEntries : Except Fault Unit → List Entry
  | .ok () => [.restart]
  | .error _ => []

/-- The entries for a number of steps. -/
def stepEntries (c : Console) : Nat → List Entry
  | 0 => []
  | n + 1 => .step c :: stepEntries c.step.console n

/-- The entries for a call. -/
def entries : Call → Console → List Entry
  | insert image pc, c => restartEntries (c.insert image pc).result
  | reset pc, c => restartEntries (c.reset pc).result
  | step, c => [.step c]
  | run hooks limit fuel s, c => stepEntries c (c.runSteps hooks limit 0 s fuel)
  | read _, _ | write _ _, _ => []

end Call

/-- Where a history has led, and its log. -/
structure Session where
  console : Console
  log : List Entry := []

namespace Session

/-- One more call. -/
def call (s : Session) (call : Call) : Session where
  console := call.console s.console
  log := s.log ++ call.entries s.console

/-- Calls one after the other. -/
def calls (s : Session) (cs : List Call) : Session := cs.foldl call s

/-- The start of a history: the console has been switched on. -/
def start (strict breakHalts : Bool) : Session :=
  { console := (Console.powerOn strict breakHalts).console }

/-- A run is a number of steps. -/
theorem call_run (s : Session) {σ : Type} (hooks : Console.Hooks σ) (limit : Option Int)
    (fuel : Nat) (x : σ) :
    s.call (.run hooks limit fuel x) =
      s.calls (List.replicate (s.console.runSteps hooks limit 0 x fuel) .step) := by
  have h : ∀ n (s : Session), s.calls (List.replicate n .step) =
      ⟨s.console.steps n, s.log ++ Call.stepEntries s.console n⟩ := by
    intro n
    induction n with
    | zero => exact fun s => by rw [Call.stepEntries, List.append_nil]; rfl
    | succ n ih =>
        intro s
        show (s.call .step).calls (List.replicate n .step) = _
        rw [ih, call, Call.entries, List.append_assoc]
        rfl
  rw [h, ← Console.run_console]
  rfl

/-- What calls preserve holds throughout a history.  A run need not be considered, since it is a
number of steps. -/
theorem calls_preserve {I : Session → Prop}
    (hcall : ∀ (s : Session) (c : Call), (∀ {σ} (h : Console.Hooks σ) l f x, c ≠ .run h l f x) →
      I s → I (s.call c))
    {s : Session} (hs : I s) (cs : List Call) : I (s.calls cs) := by
  have hsteps : ∀ n (s : Session), I s → I (s.calls (List.replicate n .step)) := by
    intro n
    induction n with
    | zero => exact fun s hs => hs
    | succ n ih => exact fun s hs => ih _ (hcall s .step (fun _ _ _ _ h => by cases h) hs)
  induction cs generalizing s with
  | nil => exact hs
  | cons c cs ih =>
      refine ih ?_
      cases c with
      | run hooks limit fuel x =>
          rw [call_run]
          exact hsteps _ s hs
      | _ => exact hcall s _ (fun _ _ _ _ h => by cases h) hs

end Session

/-! ### Counting in a log -/

namespace Entry

/-- The sum of a quantity of steps over the steps since the last restart. -/
def sinceRestart (f : Console → Nat) (log : List Entry) : Nat :=
  log.foldl (fun n e => match e with | restart => 0 | step c => n + f c) 0

/-- The sum of a quantity of steps over all steps. -/
def total (f : Console → Nat) (log : List Entry) : Nat :=
  log.foldl (fun n e => match e with | restart => n | step c => n + f c) 0

variable (f : Console → Nat) (log : List Entry)

@[simp] theorem sinceRestart_append_restart : sinceRestart f (log ++ [restart]) = 0 := by
  rw [sinceRestart, List.foldl_append]
  rfl

@[simp] theorem sinceRestart_append_step (c : Console) :
    sinceRestart f (log ++ [step c]) = sinceRestart f log + f c := by
  rw [sinceRestart, List.foldl_append]
  rfl

@[simp] theorem total_append_restart : total f (log ++ [restart]) = total f log := by
  rw [total, List.foldl_append]
  rfl

@[simp] theorem total_append_step (c : Console) :
    total f (log ++ [step c]) = total f log + f c := by
  rw [total, List.foldl_append]
  rfl

end Entry

end Famicom
