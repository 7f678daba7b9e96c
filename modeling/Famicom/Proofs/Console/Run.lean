import Mathlib.Data.Nat.Find
import Mathlib.Order.Bounds.Basic
import Famicom.Proofs.Console.History
import Famicom.Proofs.Console.Step

/-! # The course of a run

A run that has completed `k` steps ends there for one of three reasons (`Ends`): the limit is
reached, the question is answered by yes, or the next step halts.  Otherwise the next step is
completed and the run goes on (`GoesOn`), or it fails and so does the run.  Hence what a run has
done is determined by the number of steps after which it goes on; its `Course` tells how it ends,
the console and the state of the hooks that it leaves, and the calls of the hooks that it has made.

To see the calls, each hook is made to note that it has been called (`Hooks.recorded`).  The main
result `run_course` says what is noted, and that a run may be cut in two at a limit. -/

namespace Famicom.Console

/-- A call of a hook. -/
inductive Callback where
  /-- It is asked whether the run is to end. -/
  | ask
  | notice (notice : Notice)
  | draw (frame : Frame)
  | pace (cycles : Nat)
deriving Repr, DecidableEq

/-- The step of a console neither halts nor fails. -/
def IsCompleted (c : Console) : Prop := ∃ cycles, c.step.result = .ok (some cycles)

theorem IsCompleted.result {c : Console} (h : c.IsCompleted) :
    c.step.result = .ok (some c.reported) := by
  obtain ⟨cycles, h⟩ := h
  rw [reported, h]

/-! ### Consoles after some steps -/

theorem steps_add (c : Console) (n k : Nat) : (c.steps n).steps k = c.steps (n + k) := by
  induction n generalizing c with
  | zero => rw [Nat.zero_add, steps]
  | succ n ih => rw [Nat.add_right_comm, steps, steps, ih]

theorem steps_succ (c : Console) (k : Nat) : c.steps (k + 1) = (c.steps k).step.console :=
  (c.steps_add k 1).symm

/-! ### What hooks are told -/

namespace Hooks

variable {σ : Type} (hooks : Hooks σ) (c : Console) (s : σ)

/-- The state of the hooks after a step that halts or fails. -/
def afterTry : σ := hooks.tell c.step.notices (hooks.ask s).2

/-- The state of the hooks after a step that is completed. -/
def afterStep : σ :=
  hooks.showStep c.step.console.board.ppu.frame c.reported (hooks.afterTry c s)

/-- The state of the hooks after a number of steps. -/
def after (c : Console) (s : σ) : Nat → σ
  | 0 => s
  | k + 1 => after c.step.console (hooks.afterStep c s) k

/-- The answer that is given after a number of steps. -/
def answer (k : Nat) : Bool := (hooks.ask (hooks.after c s k)).1

theorem after_add (n k : Nat) :
    hooks.after (c.steps n) (hooks.after c s n) k = hooks.after c s (n + k) := by
  induction n generalizing c s with
  | zero => rw [Nat.zero_add, steps, after]
  | succ n ih => rw [Nat.add_right_comm, steps, after, after, ih]

theorem after_succ (k : Nat) :
    hooks.after c s (k + 1) = hooks.afterStep (c.steps k) (hooks.after c s k) :=
  (hooks.after_add c s k 1).symm

theorem answer_add (n k : Nat) :
    hooks.answer (c.steps n) (hooks.after c s n) k = hooks.answer c s (n + k) := by
  rw [answer, after_add, answer]

/-- The call for the question, if it is asked. -/
def askCalls : List Callback := if hooks.shouldStop.isSome then [.ask] else []

/-- The calls for a picture and the cycles of a step. -/
def showCalls (frame : Frame) (cycles : Nat) : List Callback :=
  (if hooks.draw.isSome then [.draw frame] else []) ++
    if hooks.pace.isSome then [.pace cycles] else []

/-- The calls for a step that halts or fails, with the question before it. -/
def tryCalls : List Callback := hooks.askCalls ++ c.step.notices.map .notice

/-- The calls for a step that is completed. -/
def stepCalls : List Callback :=
  hooks.tryCalls c ++ hooks.showCalls c.step.console.board.ppu.frame c.reported

/-- The calls for a number of steps. -/
def calls (k : Nat) : List Callback := (List.range k).flatMap fun i => hooks.stepCalls (c.steps i)

@[simp] theorem calls_zero : hooks.calls c 0 = [] := rfl

theorem calls_succ (k : Nat) :
    hooks.calls c (k + 1) = hooks.calls c k ++ hooks.stepCalls (c.steps k) := by
  rw [calls, List.range_succ, List.flatMap_append, List.flatMap_singleton, calls]

theorem calls_add (n k : Nat) :
    hooks.calls c (n + k) = hooks.calls c n ++ hooks.calls (c.steps n) k := by
  induction k with
  | zero => rw [Nat.add_zero, calls_zero, List.append_nil]
  | succ k ih => rw [← Nat.add_assoc, calls_succ, calls_succ, ih, steps_add, List.append_assoc]

/-! ### Hooks that note their calls -/

/-- The hooks, each of which notes besides that it has been called. -/
def recorded : Hooks (σ × List Callback) where
  shouldStop := hooks.shouldStop.map fun ask (s, made) =>
    ((ask s).1, ((ask s).2, made ++ [.ask]))
  draw := hooks.draw.map fun draw frame (s, made) => (draw frame s, made ++ [.draw frame])
  pace := hooks.pace.map fun pace cycles (s, made) => (pace cycles s, made ++ [.pace cycles])
  observe notice := fun (s, made) => (hooks.observe notice s, made ++ [.notice notice])

variable (made : List Callback)

theorem ask_recorded :
    hooks.recorded.ask (s, made) =
      ((hooks.ask s).1, ((hooks.ask s).2, made ++ hooks.askCalls)) := by
  obtain ⟨_ | shouldStop, _, _, _⟩ := hooks
  · simp [ask, recorded, askCalls]
  · simp [ask, recorded, askCalls]

theorem tell_recorded (notices : List Notice) :
    hooks.recorded.tell notices (s, made) =
      (hooks.tell notices s, made ++ notices.map .notice) := by
  induction notices generalizing s made with
  | nil => rw [List.map_nil, List.append_nil]; rfl
  | cons n notices ih =>
      have htell := ih (hooks.observe n s) (made ++ [.notice n])
      rwa [List.append_assoc] at htell

theorem showStep_recorded (frame : Frame) (cycles : Nat) :
    hooks.recorded.showStep frame cycles (s, made) =
      (hooks.showStep frame cycles s, made ++ hooks.showCalls frame cycles) := by
  obtain ⟨_, _ | draw, _ | pace, _⟩ := hooks
  all_goals simp [showStep, recorded, showCalls]

theorem afterTry_recorded :
    hooks.recorded.afterTry c (s, made) = (hooks.afterTry c s, made ++ hooks.tryCalls c) := by
  rw [afterTry, ask_recorded, tell_recorded, List.append_assoc, afterTry, tryCalls]

theorem afterStep_recorded :
    hooks.recorded.afterStep c (s, made) = (hooks.afterStep c s, made ++ hooks.stepCalls c) := by
  rw [afterStep, afterTry_recorded, showStep_recorded, List.append_assoc, afterStep, stepCalls]

theorem after_recorded (k : Nat) :
    hooks.recorded.after c (s, made) k = (hooks.after c s k, made ++ hooks.calls c k) := by
  induction k with
  | zero => rw [calls_zero, List.append_nil]; rfl
  | succ k ih =>
      rw [after_succ, ih, afterStep_recorded, ← after_succ, calls_succ, List.append_assoc]

theorem answer_recorded (k : Nat) :
    hooks.recorded.answer c (s, made) k = hooks.answer c s k := by
  rw [answer, after_recorded, ask_recorded, answer]

end Hooks

/-! ### Where a run goes on -/

section course
variable {σ : Type} (hooks : Hooks σ) (limit : Option Int) (c : Console) (s : σ)

/-- A run that has completed `k` steps completes another. -/
structure GoesOn (k : Nat) : Prop where
  below : atLimit limit k = false
  no : hooks.answer c s k = false
  completed : (c.steps k).IsCompleted

/-- A run that has completed `k` steps ends: the limit is reached, or the answer is yes, or the
next step halts. -/
def Ends (k : Nat) : Prop :=
  atLimit limit k ∨ hooks.answer c s k ∨ (c.steps k).step.result = .ok none

/-- The course of a run: how it ends, the console and the state of the hooks that it leaves, and the
calls that were made. -/
inductive Course : Ending → Console → σ → List Callback → Prop where
  | limit {k : Nat} (hgo : ∀ i < k, GoesOn hooks limit c s i) (hlimit : atLimit limit k) :
    Course (.finished k) (c.steps k) (hooks.after c s k) (hooks.calls c k)
  | stop {k : Nat} (hgo : ∀ i < k, GoesOn hooks limit c s i) (hbelow : atLimit limit k = false)
    (hyes : hooks.answer c s k) :
    Course (.finished k) (c.steps k) (hooks.ask (hooks.after c s k)).2
      (hooks.calls c k ++ hooks.askCalls)
  | halt {k : Nat} (hgo : ∀ i < k, GoesOn hooks limit c s i) (hbelow : atLimit limit k = false)
    (hno : hooks.answer c s k = false) (hhalt : (c.steps k).step.result = .ok none) :
    Course (.finished k) (c.steps (k + 1))
      (hooks.afterTry (c.steps k) (hooks.after c s k))
      (hooks.calls c k ++ hooks.tryCalls (c.steps k))
  | fail {k : Nat} {fault : Fault} (hgo : ∀ i < k, GoesOn hooks limit c s i)
    (hbelow : atLimit limit k = false) (hno : hooks.answer c s k = false)
    (hfail : (c.steps k).step.result = .error fault) :
    Course (.failed fault) (c.steps (k + 1))
      (hooks.afterTry (c.steps k) (hooks.after c s k))
      (hooks.calls c k ++ hooks.tryCalls (c.steps k))

/-- The run ends so, however many more steps it may make. -/
def RunsTo (ending : Ending) (c' : Console) (s' : σ) : Prop :=
  ending ≠ .unfinished ∧
    ∃ enough, ∀ fuel, enough ≤ fuel → run hooks limit fuel c s = (ending, c', s')

variable {hooks limit c s} {e e₁ e₂ : Ending} {c' c₁ c₂ : Console} {s' s₁ s₂ : σ}
  {made : List Callback} {k : Nat}

theorem RunsTo.unique (h₁ : RunsTo hooks limit c s e₁ c₁ s₁)
    (h₂ : RunsTo hooks limit c s e₂ c₂ s₂) : e₁ = e₂ ∧ c₁ = c₂ ∧ s₁ = s₂ := by
  obtain ⟨-, m, hm⟩ := h₁
  obtain ⟨-, n, hn⟩ := h₂
  have heq := (hm (max m n) (Nat.le_max_left m n)).symm.trans (hn _ (Nat.le_max_right m n))
  simpa using heq

/-! ### Running -/

theorem runFrom_of_atLimit {n : Nat} (h : atLimit limit n) (fuel : Nat) :
    runFrom hooks limit n c s fuel = (.finished n, c, s) := by
  cases fuel with
  | zero => rw [runFrom, if_pos h]
  | succ fuel => rw [runFrom, if_pos h]

section below
variable {n : Nat} (hbelow : atLimit limit n = false) (fuel : Nat)
include hbelow

theorem runFrom_of_yes (hyes : (hooks.ask s).1 = true) :
    runFrom hooks limit n c s (fuel + 1) = (.finished n, c, (hooks.ask s).2) := by
  rw [runFrom, if_neg (by simp [hbelow]), ← Prod.eta (hooks.ask s), hyes]

/-- A run that makes another step does what goes with it. -/
theorem runFrom_of_no (hno : (hooks.ask s).1 = false) :
    runFrom hooks limit n c s (fuel + 1) =
      match c.step.result with
      | .error fault => (.failed fault, c.step.console, hooks.afterTry c s)
      | .ok none => (.finished n, c.step.console, hooks.afterTry c s)
      | .ok (some _) =>
        runFrom hooks limit (n + 1) c.step.console (hooks.afterStep c s) fuel := by
  rw [runFrom, if_neg (by simp [hbelow]), ← Prod.eta (hooks.ask s), hno, Hooks.afterStep,
    Hooks.afterTry, reported]
  rcases c.step with ⟨_ | _ | cycles, console, notices⟩
  · rfl
  · rfl
  · rfl

end below

/-- A run goes through the steps after which it goes on. -/
theorem run_add (hgo : ∀ i < k, GoesOn hooks limit c s i) (fuel : Nat) :
    run hooks limit (k + fuel) c s =
      runFrom hooks limit k (c.steps k) (hooks.after c s k) fuel := by
  induction k generalizing fuel with
  | zero => rw [Nat.zero_add]; rfl
  | succ k ih =>
      obtain ⟨hbelow, hno, hcompleted⟩ := hgo k k.lt_succ_self
      rw [Nat.succ_add_eq_add_succ, ih (fun i hi => hgo i (Nat.lt_succ_of_lt hi)),
        runFrom_of_no hbelow fuel hno, hcompleted.result, ← steps_succ, ← Hooks.after_succ]

/-- How a run ends is seen from what it does after the last step after which it goes on. -/
theorem runsTo_of_rest (hgo : ∀ i < k, GoesOn hooks limit c s i) (hended : e ≠ .unfinished)
    (hrest : ∀ fuel, runFrom hooks limit k (c.steps k) (hooks.after c s k) (fuel + 1) =
      (e, c', s')) :
    RunsTo hooks limit c s e c' s' := by
  refine ⟨hended, k + 1, fun fuel hfuel => ?_⟩
  obtain ⟨more, rfl⟩ := Nat.exists_eq_add_of_le hfuel
  rw [Nat.add_right_comm, Nat.add_assoc, run_add hgo, hrest]

/-- What a course says is so. -/
theorem Course.runsTo (h : Course hooks limit c s e c' s' made) :
    RunsTo hooks limit c s e c' s' := by
  cases h with
  | limit hgo hlimit =>
      apply runsTo_of_rest hgo Ending.noConfusion
      exact fun fuel => runFrom_of_atLimit hlimit (fuel + 1)
  | stop hgo hbelow hyes =>
      apply runsTo_of_rest hgo Ending.noConfusion
      exact fun fuel => runFrom_of_yes hbelow fuel hyes
  | halt hgo hbelow hno hhalt =>
      apply runsTo_of_rest hgo Ending.noConfusion
      intro fuel
      rw [runFrom_of_no hbelow fuel hno, hhalt, steps_succ]
  | fail hgo hbelow hno hfail =>
      apply runsTo_of_rest hgo Ending.noConfusion
      intro fuel
      rw [runFrom_of_no hbelow fuel hno, hfail, steps_succ]

/-- A run that does not go on has a course. -/
theorem exists_course (h : ∃ k, ¬ GoesOn hooks limit c s k) :
    ∃ e c' s' made, Course hooks limit c s e c' s' made := by
  classical
  have hgo (i : Nat) (hi : i < Nat.find h) : GoesOn hooks limit c s i :=
    not_not.mp (Nat.find_min h hi)
  have hnot := Nat.find_spec h
  generalize Nat.find h = k at hgo hnot
  cases hlimit : atLimit limit k with
  | true => exact ⟨_, _, _, _, .limit hgo hlimit⟩
  | false =>
      cases hanswer : hooks.answer c s k with
      | true => exact ⟨_, _, _, _, .stop hgo hlimit hanswer⟩
      | false =>
          rcases hresult : (c.steps k).step.result with fault | _ | cycles
          · exact ⟨_, _, _, _, .fail hgo hlimit hanswer hresult⟩
          · exact ⟨_, _, _, _, .halt hgo hlimit hanswer hresult⟩
          · exact absurd ⟨hlimit, hanswer, cycles, hresult⟩ hnot

/-- A run that comes to an end does not go on for ever. -/
theorem RunsTo.exists_not_goesOn (h : RunsTo hooks limit c s e c' s') :
    ∃ k, ¬ GoesOn hooks limit c s k := by
  by_contra hall
  have hgo (k : Nat) : GoesOn hooks limit c s k := not_not.mp fun hnot => hall ⟨k, hnot⟩
  obtain ⟨hne, enough, hrun⟩ := h
  have hend := (run_add (fun i _ => hgo i) 0).symm.trans (hrun enough le_rfl)
  rw [runFrom, (hgo enough).below] at hend
  exact hne (congrArg Prod.fst hend).symm

/-! ### The calls that are noted -/

theorem goesOn_recorded (made : List Callback) :
    GoesOn hooks.recorded limit c (s, made) k ↔ GoesOn hooks limit c s k := by
  constructor
  · rintro ⟨hbelow, hno, hcompleted⟩
    rw [Hooks.answer_recorded] at hno
    exact ⟨hbelow, hno, hcompleted⟩
  · rintro ⟨hbelow, hno, hcompleted⟩
    rw [← hooks.answer_recorded c s made] at hno
    exact ⟨hbelow, hno, hcompleted⟩

/-- Hooks that note their calls note those of the course. -/
theorem Course.recorded (h : Course hooks limit c s e c' s' made) (before : List Callback) :
    RunsTo hooks.recorded limit c (s, before) e c' (s', before ++ made) := by
  have hgo' {k : Nat} (hgo : ∀ i < k, GoesOn hooks limit c s i) (i : Nat) (hi : i < k) :
      GoesOn hooks.recorded limit c (s, before) i := (goesOn_recorded before).mpr (hgo i hi)
  cases h with
  | @limit k hgo hlimit =>
      have hcourse : Course hooks.recorded limit c (s, before) _ _ _ _ := .limit (hgo' hgo) hlimit
      rw [Hooks.after_recorded] at hcourse
      exact hcourse.runsTo
  | @stop k hgo hbelow hyes =>
      rw [← hooks.answer_recorded c s before] at hyes
      have hcourse := Course.stop (hgo' hgo) hbelow hyes
      rw [Hooks.after_recorded, Hooks.ask_recorded, List.append_assoc] at hcourse
      exact hcourse.runsTo
  | @halt k hgo hbelow hno hhalt =>
      rw [← hooks.answer_recorded c s before] at hno
      have hcourse := Course.halt (hgo' hgo) hbelow hno hhalt
      rw [Hooks.after_recorded, Hooks.afterTry_recorded, List.append_assoc] at hcourse
      exact hcourse.runsTo
  | @fail k fault hgo hbelow hno hfail =>
      rw [← hooks.answer_recorded c s before] at hno
      have hcourse := Course.fail (hgo' hgo) hbelow hno hfail
      rw [Hooks.after_recorded, Hooks.afterTry_recorded, List.append_assoc] at hcourse
      exact hcourse.runsTo

theorem runsTo_iff_course :
    RunsTo hooks limit c s e c' s' ↔ ∃ made, Course hooks limit c s e c' s' made := by
  constructor
  · intro h
    obtain ⟨e₁, c₁, s₁, made, hcourse⟩ := exists_course h.exists_not_goesOn
    obtain ⟨rfl, rfl, rfl⟩ := h.unique hcourse.runsTo
    exact ⟨made, hcourse⟩
  · rintro ⟨made, hcourse⟩
    exact hcourse.runsTo

theorem runsTo_recorded_iff :
    RunsTo hooks.recorded limit c (s, []) e c' (s', made) ↔
      Course hooks limit c s e c' s' made := by
  constructor
  · intro h
    obtain ⟨k, hnot⟩ := h.exists_not_goesOn
    obtain ⟨e₁, c₁, s₁, made₁, hcourse⟩ := exists_course ⟨k, mt (goesOn_recorded []).mpr hnot⟩
    obtain ⟨rfl, rfl, heq⟩ := h.unique (hcourse.recorded [])
    cases heq
    exact hcourse
  · intro h
    exact h.recorded []

/-! ### Where a run ends -/

theorem goesOn_iff : GoesOn hooks limit c s k ↔
    ¬ Ends hooks limit c s k ∧ (c.steps k).IsCompleted := by
  constructor
  · rintro ⟨hbelow, hno, cycles, hcycles⟩
    exact ⟨by simp [Ends, hbelow, hno, hcycles], cycles, hcycles⟩
  · rintro ⟨hends, hcompleted⟩
    simp only [Ends, not_or, Bool.not_eq_true] at hends
    exact ⟨hends.1, hends.2.1, hcompleted⟩

theorem forall_goesOn_iff : (∀ i < k, GoesOn hooks limit c s i) ↔
    (∀ i < k, ¬ Ends hooks limit c s i) ∧ ∀ i < k, (c.steps i).IsCompleted := by
  simp only [goesOn_iff, imp_and, forall_and]

theorem isLeast_ends_iff : IsLeast {k | Ends hooks limit c s k} k ↔
    Ends hooks limit c s k ∧ ∀ i < k, ¬ Ends hooks limit c s i := by
  simp only [IsLeast, mem_lowerBounds, Set.mem_ofPred_eq]
  apply and_congr_right
  intro _
  constructor
  · intro h i hi hends
    exact absurd (h i hends) (Nat.not_le_of_lt hi)
  · intro h i hends
    exact Nat.le_of_not_lt fun hi => h i hi hends

variable (hooks limit c s) in
/-- The console after a run that has completed `k` steps; the next has been tried, unless the limit
or the answer has ended the run. -/
def endConsole (k : Nat) : Console :=
  if atLimit limit k ∨ hooks.answer c s k then c.steps k else c.steps (k + 1)

variable (hooks limit c s) in
/-- The calls of a run that has completed `k` steps. -/
def endCalls (k : Nat) : List Callback :=
  hooks.calls c k ++
    if atLimit limit k then []
    else if hooks.answer c s k then hooks.askCalls
    else hooks.tryCalls (c.steps k)

/-- A run ends at the first occasion, unless a step fails before. -/
theorem course_finished_iff :
    (∃ s', Course hooks limit c s (.finished k) c' s' made) ↔
      IsLeast {k | Ends hooks limit c s k} k ∧ (∀ i < k, (c.steps i).IsCompleted) ∧
        c' = endConsole hooks limit c s k ∧ made = endCalls hooks limit c s k := by
  rw [isLeast_ends_iff, endConsole, endCalls]
  constructor
  · rintro ⟨s', h⟩
    cases h with
    | limit hgo hlimit =>
        obtain ⟨hnot, hcompleted⟩ := forall_goesOn_iff.mp hgo
        exact ⟨⟨.inl hlimit, hnot⟩, hcompleted, by simp [hlimit], by simp [hlimit]⟩
    | stop hgo hbelow hyes =>
        obtain ⟨hnot, hcompleted⟩ := forall_goesOn_iff.mp hgo
        exact ⟨⟨.inr (.inl hyes), hnot⟩, hcompleted, by simp [hyes], by simp [hbelow, hyes]⟩
    | halt hgo hbelow hno hhalt =>
        obtain ⟨hnot, hcompleted⟩ := forall_goesOn_iff.mp hgo
        exact ⟨⟨.inr (.inr hhalt), hnot⟩, hcompleted, by simp [hbelow, hno],
          by simp [hbelow, hno]⟩
  · rintro ⟨⟨hends, hnot⟩, hcompleted, rfl, rfl⟩
    have hgo := forall_goesOn_iff.mpr ⟨hnot, hcompleted⟩
    cases hlimit : atLimit limit k with
    | true => exact ⟨_, by simpa using .limit hgo hlimit⟩
    | false =>
        cases hanswer : hooks.answer c s k with
        | true => exact ⟨_, by simpa using .stop hgo hlimit hanswer⟩
        | false =>
            have hhalt : (c.steps k).step.result = .ok none := by
              simpa [Ends, hlimit, hanswer] using hends
            exact ⟨_, by simpa using .halt hgo hlimit hanswer hhalt⟩

theorem course_failed_iff {fault : Fault} :
    (∃ s', Course hooks limit c s (.failed fault) c' s' made) ↔
      ∃ k, (∀ i ≤ k, ¬ Ends hooks limit c s i) ∧ (∀ i < k, (c.steps i).IsCompleted) ∧
        (c.steps k).step.result = .error fault ∧ c' = endConsole hooks limit c s k ∧
        made = endCalls hooks limit c s k := by
  constructor
  · rintro ⟨s', h⟩
    cases h with
    | @fail k _ hgo hbelow hno hfail =>
        obtain ⟨hnot, hcompleted⟩ := forall_goesOn_iff.mp hgo
        refine ⟨k, fun i hi => ?_, hcompleted, hfail, by simp [endConsole, hbelow, hno],
          by simp [endCalls, hbelow, hno]⟩
        rcases Nat.lt_or_eq_of_le hi with hlt | rfl
        · exact hnot i hlt
        · simp [Ends, hbelow, hno, hfail]
  · rintro ⟨k, hnot, hcompleted, hfail, rfl, rfl⟩
    have hgo := forall_goesOn_iff.mpr ⟨fun i hi => hnot i (Nat.le_of_lt hi), hcompleted⟩
    have hk := hnot k le_rfl
    simp only [Ends, not_or, Bool.not_eq_true] at hk
    obtain ⟨hbelow, hno, -⟩ := hk
    exact ⟨_, by simpa [endConsole, endCalls, hbelow, hno] using .fail hgo hbelow hno hfail⟩

end course

/-! ### Counting calls -/

/-- The pictures that are shown by calls. -/
def drawn (made : List Callback) : List Frame :=
  made.filterMap fun
    | .draw frame => some frame
    | _ => none

/-- The cycles that are told by calls. -/
def paced (made : List Callback) : List Nat :=
  made.filterMap fun
    | .pace cycles => some cycles
    | _ => none

section count
variable {σ : Type} (hooks : Hooks σ) (limit : Option Int) (c : Console) (s : σ) (k : Nat)

/-- What is neither a question nor a notice is called for after steps that are completed. -/
theorem filterMap_endCalls {β : Type} {f : Callback → Option β} (hask : f .ask = none)
    (hnotice : ∀ n, f (.notice n) = none) :
    (endCalls hooks limit c s k).filterMap f = (List.range k).flatMap fun i =>
      (hooks.showCalls (c.steps (i + 1)).board.ppu.frame (c.steps i).reported).filterMap f := by
  have hquestion : hooks.askCalls.filterMap f = [] := by
    unfold Hooks.askCalls
    split <;> simp [hask]
  have htry (c : Console) : (hooks.tryCalls c).filterMap f = [] := by
    simp [Hooks.tryCalls, hquestion, hnotice]
  have hcalls : (hooks.calls c k).filterMap f = (List.range k).flatMap fun i =>
      (hooks.showCalls (c.steps (i + 1)).board.ppu.frame (c.steps i).reported).filterMap f := by
    rw [Hooks.calls, List.filterMap_flatMap]
    simp only [Hooks.stepCalls, List.filterMap_append, htry, List.nil_append, steps_succ]
  rw [endCalls, List.filterMap_append, hcalls]
  split
  · exact List.append_nil _
  · split
    · rw [hquestion, List.append_nil]
    · rw [htry, List.append_nil]

theorem drawn_endCalls :
    drawn (endCalls hooks limit c s k) =
      if hooks.draw.isSome then (List.range k).map fun i => (c.steps (i + 1)).board.ppu.frame
      else [] := by
  rw [drawn, filterMap_endCalls _ _ _ _ _ rfl fun _ => rfl]
  cases hdraw : hooks.draw.isSome <;> cases hpace : hooks.pace.isSome <;>
    simp [Hooks.showCalls, hdraw, hpace, List.map_eq_flatMap]

theorem paced_endCalls :
    paced (endCalls hooks limit c s k) =
      if hooks.pace.isSome then (List.range k).map fun i => (c.steps i).reported else [] := by
  rw [paced, filterMap_endCalls _ _ _ _ _ rfl fun _ => rfl]
  cases hdraw : hooks.draw.isSome <;> cases hpace : hooks.pace.isSome <;>
    simp [Hooks.showCalls, hdraw, hpace, List.map_eq_flatMap]

theorem count_tryCalls :
    (hooks.tryCalls c).count .ask = if hooks.shouldStop.isSome then 1 else 0 := by
  have hnotices : (c.step.notices.map Callback.notice).count .ask = 0 := by
    simp [List.count_eq_zero]
  rw [Hooks.tryCalls, Hooks.askCalls, List.count_append, hnotices]
  split <;> rfl

theorem count_calls :
    (hooks.calls c k).count .ask = if hooks.shouldStop.isSome then k else 0 := by
  induction k with
  | zero => simp
  | succ k ih =>
      have hshow (frame : Frame) (cycles : Nat) :
          (hooks.showCalls frame cycles).count .ask = 0 := by
        unfold Hooks.showCalls
        split <;> split <;> simp
      rw [Hooks.calls_succ, Hooks.stepCalls, List.count_append, List.count_append, ih, hshow,
        count_tryCalls]
      split <;> rfl

/-- The question is asked before each step, and once more unless the limit ends the run. -/
theorem count_endCalls :
    (endCalls hooks limit c s k).count .ask =
      if hooks.shouldStop.isSome then if atLimit limit k then k else k + 1 else 0 := by
  have hask : hooks.askCalls.count .ask = if hooks.shouldStop.isSome then 1 else 0 := by
    unfold Hooks.askCalls
    split <;> rfl
  rw [endCalls, List.count_append, count_calls]
  cases atLimit limit k <;> cases hooks.answer c s k <;> cases hstop : hooks.shouldStop.isSome <;>
    simp [count_tryCalls, hask, hstop]

end count

/-! ### Runs one after the other -/

/-- The ending of a run that has completed some steps already. -/
def Ending.plus (n : Nat) : Ending → Ending
  | finished steps => finished (n + steps)
  | failed fault => failed fault
  | unfinished => unfinished

section split
variable {σ : Type} {hooks : Hooks σ} {c c₁ c₂ : Console} {s s₁ s₂ : σ} {n m k : Nat} {e : Ending}
  {made₁ made₂ : List Callback}

theorem atLimit_add (n m k : Nat) :
    atLimit (some ((n : Int) + m)) (n + k) = atLimit (some (m : Int)) k := by
  simp only [atLimit, decide_eq_decide]
  omega

theorem goesOn_add :
    GoesOn hooks (some ((n : Int) + m)) c s (n + k) ↔
      GoesOn hooks (some (m : Int)) (c.steps n) (hooks.after c s n) k := by
  constructor
  · rintro ⟨hbelow, hno, hcompleted⟩
    exact ⟨(atLimit_add n m k).symm.trans hbelow, (hooks.answer_add c s n k).trans hno,
      (c.steps_add n k).symm ▸ hcompleted⟩
  · rintro ⟨hbelow, hno, hcompleted⟩
    exact ⟨(atLimit_add n m k).trans hbelow, (hooks.answer_add c s n k).symm.trans hno,
      c.steps_add n k ▸ hcompleted⟩

/-- A greater limit lets a run go on where a smaller one does. -/
theorem GoesOn.raise (h : GoesOn hooks (some (n : Int)) c s k) (m : Nat) :
    GoesOn hooks (some ((n : Int) + m)) c s k := by
  obtain ⟨hbelow, hno, hcompleted⟩ := h
  refine ⟨?_, hno, hcompleted⟩
  simp only [atLimit, decide_eq_false_iff_not] at hbelow ⊢
  omega

/-- A run that reaches its limit, and another from there, have together the course of a run with
both limits. -/
theorem Course.append (h₁ : Course hooks (some (n : Int)) c s (.finished n) c₁ s₁ made₁)
    (h₂ : Course hooks (some (m : Int)) c₁ s₁ e c₂ s₂ made₂) :
    Course hooks (some ((n : Int) + m)) c s (e.plus n) c₂ s₂ (made₁ ++ made₂) := by
  have hlimit : atLimit (some (n : Int)) n = true := decide_eq_true (le_refl (n : Int))
  cases h₁ with
  | stop _ hbelow => exact absurd (hlimit.symm.trans hbelow) (by decide)
  | halt _ hbelow => exact absurd (hlimit.symm.trans hbelow) (by decide)
  | limit hgo₁ =>
      -- The second run begins where `n` steps have been completed, so it makes those after them.
      have hgo {k : Nat} (hgo₂ : ∀ i < k, GoesOn hooks (some (m : Int)) (c.steps n)
          (hooks.after c s n) i) : ∀ i < n + k, GoesOn hooks (some ((n : Int) + m)) c s i := by
        intro i hi
        rcases Nat.lt_or_ge i n with hlt | hge
        · exact (hgo₁ i hlt).raise m
        · obtain ⟨j, rfl⟩ := Nat.exists_eq_add_of_le hge
          exact goesOn_add.mpr (hgo₂ j (Nat.lt_of_add_lt_add_left hi))
      cases h₂ with
      | limit hgo₂ hlimit₂ =>
          rw [steps_add, Hooks.after_add, ← Hooks.calls_add]
          exact .limit (hgo hgo₂) ((atLimit_add n m _).trans hlimit₂)
      | stop hgo₂ hbelow hyes =>
          rw [steps_add, Hooks.after_add, ← List.append_assoc, ← Hooks.calls_add]
          exact .stop (hgo hgo₂) ((atLimit_add n m _).trans hbelow)
            ((hooks.answer_add c s n _).symm.trans hyes)
      | halt hgo₂ hbelow hno hhalt =>
          rw [steps_add] at hhalt
          rw [steps_add, steps_add, Hooks.after_add, ← List.append_assoc, ← Hooks.calls_add]
          exact .halt (hgo hgo₂) ((atLimit_add n m _).trans hbelow)
            ((hooks.answer_add c s n _).symm.trans hno) hhalt
      | fail hgo₂ hbelow hno hfail =>
          rw [steps_add] at hfail
          rw [steps_add, steps_add, Hooks.after_add, ← List.append_assoc, ← Hooks.calls_add]
          exact .fail (hgo hgo₂) ((atLimit_add n m _).trans hbelow)
            ((hooks.answer_add c s n _).symm.trans hno) hfail

/-- A run with a limit comes to an end. -/
theorem exists_course_of_limit (hooks : Hooks σ) (m : Nat) (c : Console) (s : σ) :
    ∃ e c' s' made, Course hooks (some (m : Int)) c s e c' s' made := by
  refine exists_course ⟨m, fun hgo => ?_⟩
  have hlimit : atLimit (some (m : Int)) m = true := decide_eq_true (le_refl (m : Int))
  exact absurd (hlimit.symm.trans hgo.below) (by decide)

end split

/-! ### The course of every run -/

/-- **What a run does.**  It is the same whether the hooks note their calls or not.

A run is finished after `k` steps just if that is the first occasion to end it and the steps before
are completed.  It fails just if there is no occasion up to a step that fails.  In both cases the
console has made the steps that are completed, and the one that halts or fails; pictures and cycles
have been told after each step that is completed, in order; and the question has been asked once
more than that, unless the limit ended the run.

A run up to one limit, and then another up to a second limit, are a run up to their sum. -/
theorem run_course {σ : Type} (hooks : Hooks σ) (limit : Option Int) (c : Console) (s : σ) :
    (∀ e c' s', RunsTo hooks limit c s e c' s' ↔
      ∃ made, RunsTo hooks.recorded limit c (s, []) e c' (s', made)) ∧
    (∀ k c' made, (∃ s', RunsTo hooks.recorded limit c (s, []) (.finished k) c' (s', made)) ↔
      IsLeast {k | Ends hooks limit c s k} k ∧ (∀ i < k, (c.steps i).IsCompleted) ∧
        c' = endConsole hooks limit c s k ∧ made = endCalls hooks limit c s k) ∧
    (∀ fault c' made,
      (∃ s', RunsTo hooks.recorded limit c (s, []) (.failed fault) c' (s', made)) ↔
        ∃ k, (∀ i ≤ k, ¬ Ends hooks limit c s i) ∧ (∀ i < k, (c.steps i).IsCompleted) ∧
          (c.steps k).step.result = .error fault ∧ c' = endConsole hooks limit c s k ∧
          made = endCalls hooks limit c s k) ∧
    (∀ k,
      drawn (endCalls hooks limit c s k) =
        (if hooks.draw.isSome then (List.range k).map fun i => (c.steps (i + 1)).board.ppu.frame
          else []) ∧
      paced (endCalls hooks limit c s k) =
        (if hooks.pace.isSome then (List.range k).map fun i => (c.steps i).reported else []) ∧
      (endCalls hooks limit c s k).count .ask =
        if hooks.shouldStop.isSome then if atLimit limit k then k else k + 1 else 0) ∧
    ∀ (n m : Nat) (c₁ : Console) (s₁ : σ) (made₁ : List Callback),
      RunsTo hooks.recorded (some (n : Int)) c (s, []) (.finished n) c₁ (s₁, made₁) →
        ∃ e c₂ s₂ made₂,
          RunsTo hooks.recorded (some (m : Int)) c₁ (s₁, []) e c₂ (s₂, made₂) ∧
          RunsTo hooks.recorded (some ((n : Int) + m)) c (s, []) (e.plus n) c₂
            (s₂, made₁ ++ made₂) := by
  refine ⟨fun e c' s' => ?_, fun k c' made => ?_, fun fault c' made => ?_, fun k => ?_, ?_⟩
  · simp only [runsTo_recorded_iff]
    exact runsTo_iff_course
  · simp only [runsTo_recorded_iff]
    exact course_finished_iff
  · simp only [runsTo_recorded_iff]
    exact course_failed_iff
  · exact ⟨drawn_endCalls .., paced_endCalls .., count_endCalls ..⟩
  · intro n m c₁ s₁ made₁ h₁
    obtain ⟨e, c₂, s₂, made₂, h₂⟩ := exists_course_of_limit hooks m c₁ s₁
    exact ⟨e, c₂, s₂, made₂, runsTo_recorded_iff.mpr h₂,
      runsTo_recorded_iff.mpr ((runsTo_recorded_iff.mp h₁).append h₂)⟩

/-- Here the first instruction does nothing and takes two cycles, and the third halts the processor:
a run of one step is finished by its limit, and what another run does then belongs to a run of any
greater limit. -/
theorem run_course_idle :
    let c := ((Session.start false true).calls
      [.write 0 0xEA, .write 1 0xEA, .reset (some 0)]).console
    let hooks : Hooks Nat :=
      { shouldStop := some fun s => (false, s), pace := some fun cycles s => s + cycles }
    ∃ c₁ s₁ made₁, RunsTo hooks.recorded (some (1 : Nat)) c (0, []) (.finished 1) c₁ (s₁, made₁) ∧
      c₁ = c.steps 1 ∧ paced made₁ = [2] ∧ made₁.count .ask = 1 ∧
      ∀ m : Nat, ∃ e c₂ s₂ made₂,
        RunsTo hooks.recorded (some (m : Int)) c₁ (s₁, []) e c₂ (s₂, made₂) ∧
        RunsTo hooks.recorded (some (((1 : Nat) : Int) + m)) c (0, []) (e.plus 1) c₂
          (s₂, made₁ ++ made₂) := by
  intro c hooks
  have hresult : c.step.result = .ok (some 2) := by rfl
  obtain ⟨-, hfinished, -, hcalls, hsplit⟩ := run_course hooks (some (1 : Nat)) c 0
  have hnot : ¬ Ends hooks (some (1 : Nat)) c 0 0 := by
    rintro (h | h | h)
    · cases h
    · cases h
    · cases hresult.symm.trans h
  have hleast : IsLeast {k | Ends hooks (some (1 : Nat)) c 0 k} 1 := by
    refine ⟨Or.inl rfl, fun k hk => Nat.pos_of_ne_zero ?_⟩
    rintro rfl
    exact hnot hk
  have hcompleted : ∀ i < 1, (c.steps i).IsCompleted := by
    intro i hi
    obtain rfl : i = 0 := Nat.lt_one_iff.mp hi
    exact ⟨2, hresult⟩
  obtain ⟨s₁, h₁⟩ := (hfinished 1 _ _).mpr ⟨hleast, hcompleted, rfl, rfl⟩
  obtain ⟨-, hpaced, hasked⟩ := hcalls 1
  refine ⟨_, s₁, _, h₁, rfl, hpaced.trans ?_, hasked, fun m => hsplit 1 m _ s₁ _ h₁⟩
  show [c.reported] = [2]
  rw [reported, hresult]

end Famicom.Console
