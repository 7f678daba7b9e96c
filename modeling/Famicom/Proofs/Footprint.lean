import Famicom.Proofs.FullMemory

/-! # What an activity depends on

On a memory an activity depends on the cells that it reads before it has written them, and on
nothing else.  Suppose two memories agree except in some *stale* cells.  A write freshens its cell
(`Access.freshen`), and accesses read fresh cells only (`ReadsFresh`) if each of them reads a cell
that is not stale by then.  If an activity does so on the one memory, then on the other it makes the
same accesses and comes to the same end, and the memories that are left agree except in the cells
that are still stale (`Activity.run_agree`). -/

namespace Famicom

/-! ### Stale cells -/

/-- The cells that are still stale after an access. -/
def Access.freshen (stale : List Word) : Access → List Word
  | fetch _ _ | read _ _ => stale
  | write a _ => stale.filter (· ≠ a)

/-- The cells that are still stale after accesses. -/
def stillStale (stale : List Word) (accesses : List Access) : List Word :=
  accesses.foldl Access.freshen stale

/-- No cell is read while it is stale. -/
def ReadsFresh (stale : List Word) : List Access → Prop
  | [] => True
  | .fetch a _ :: rest | .read a _ :: rest => a ∉ stale ∧ ReadsFresh stale rest
  | .write a d :: rest => ReadsFresh ((Access.write a d).freshen stale) rest

section stale
variable {stale : List Word} {xs ys : List Access}

/-- A cell is still stale if it was and has not been written. -/
theorem mem_stillStale {a : Word} :
    a ∈ stillStale stale xs ↔ a ∈ stale ∧ ∀ d, .write a d ∉ xs := by
  induction xs generalizing stale with
  | nil => simp [stillStale]
  | cons x xs ih =>
      show a ∈ stillStale (x.freshen stale) xs ↔ _
      rw [ih]
      cases x with
      | fetch b d | read b d => simp [Access.freshen]
      | write b d =>
          simp only [Access.freshen, List.mem_filter, decide_eq_true_eq, List.mem_cons, not_or,
            Access.write.injEq, not_and]
          constructor
          · rintro ⟨⟨hs, hne⟩, hx⟩
            exact ⟨hs, fun e => ⟨fun h => (hne h).elim, hx e⟩⟩
          · rintro ⟨hs, hx⟩
            exact ⟨⟨hs, fun h => (hx d).1 h rfl⟩, fun e => (hx e).2⟩

theorem stillStale_append : stillStale stale (xs ++ ys) = stillStale (stillStale stale xs) ys :=
  List.foldl_append

theorem readsFresh_append :
    ReadsFresh stale (xs ++ ys) ↔ ReadsFresh stale xs ∧ ReadsFresh (stillStale stale xs) ys := by
  induction xs generalizing stale with
  | nil => exact ⟨fun h => ⟨trivial, h⟩, fun h => h.2⟩
  | cons x xs ih =>
      cases x with
      | fetch a d | read a d =>
          show a ∉ stale ∧ ReadsFresh stale (xs ++ ys) ↔ (a ∉ stale ∧ ReadsFresh stale xs) ∧ _
          rw [ih, and_assoc]
          rfl
      | write a d => exact ih

end stale

/-! ### Memories that agree -/

/-- Two memories hold the same byte in each cell that is not stale. -/
def AgreeOff (stale : List Word) (m m' : FullMemory) : Prop :=
  ∀ a, a ∉ stale → m'.busRead a = m.busRead a

theorem AgreeOff.refl (stale : List Word) (m : FullMemory) : AgreeOff stale m m :=
  fun _ _ => rfl

theorem AgreeOff.write {stale : List Word} {m m' : FullMemory} (h : AgreeOff stale m m')
    (a : Word) (d : Byte) :
    AgreeOff ((Access.write a d).freshen stale) (m.busWrite a d) (m'.busWrite a d) := by
  intro b hb
  by_cases hab : a = b
  · rw [← hab, Memory.busRead_busWrite_self, Memory.busRead_busWrite_self]
  · rw [Memory.busRead_busWrite_ne _ _ hab, Memory.busRead_busWrite_ne _ _ hab]
    refine h b fun hs => hb ?_
    simp only [Access.freshen, List.mem_filter, decide_eq_true_eq]
    exact ⟨hs, fun h => hab h.symm⟩

/-- To write a stale cell of one memory makes no difference. -/
theorem AgreeOff.write_right {stale : List Word} {m m' : FullMemory} (h : AgreeOff stale m m')
    {a : Word} (ha : a ∈ stale) (d : Byte) : AgreeOff stale m (m'.busWrite a d) := by
  intro b hb
  have hab : a ≠ b := fun hab => hb (hab ▸ ha)
  rw [Memory.busRead_busWrite_ne _ _ hab]
  exact h b hb

namespace Activity

variable {α : Type}

/-- An outcome on another memory is the same as far as it can be seen. -/
structure Follows (stale : List Word) (o o' : Outcome α FullMemory) : Prop where
  result_eq : o'.result = o.result
  cpu_eq : o'.cpu = o.cpu
  accesses_eq : o'.accesses = o.accesses
  agree : AgreeOff (stillStale stale o.accesses) o.bus o'.bus

theorem Follows.after {stale : List Word} {x : Access} {o o' : Outcome α FullMemory}
    (h : Follows (x.freshen stale) o o') : Follows stale (o.after x) (o'.after x) where
  result_eq := h.result_eq
  cpu_eq := h.cpu_eq
  accesses_eq := congrArg (x :: ·) h.accesses_eq
  agree := h.agree

/-- **An activity depends on the fresh cells alone.** -/
theorem run_agree (t : Activity α) {stale : List Word} {m m' : FullMemory}
    (h : AgreeOff stale m m') (hf : ReadsFresh stale (t.run m).accesses) :
    Follows stale (t.run m) (t.run m') := by
  induction t generalizing stale m m' with
  | done c a => exact ⟨rfl, rfl, rfl, h⟩
  | fail c fault => exact ⟨rfl, rfl, rfl, h⟩
  | fetch c next ih =>
      rw [run_fetch] at hf ⊢
      rw [run_fetch, h _ hf.1]
      exact Follows.after (ih _ h hf.2)
  | read c a next ih =>
      rw [run_read] at hf ⊢
      rw [run_read, h _ hf.1]
      exact Follows.after (ih _ h hf.2)
  | write c a d next ih =>
      rw [run_write] at hf ⊢
      rw [run_write]
      exact Follows.after (ih () (h.write a d) hf)

end Activity

end Famicom
