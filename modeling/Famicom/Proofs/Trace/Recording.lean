import Famicom.Proofs.Cpu.Fetched
import Famicom.Proofs.Cpu.Safety
import Famicom.Proofs.Cpu.Watched
import Famicom.Trace.Journal

/-! # A journal tells what was executed

A processor on a full memory is put to the test (`Bench`): it is given orders, its registers are
assigned to, and bytes are stored in its memory.  A journal that is attached to it files one entry
for each step that is completed, and that entry tells of the processor and of the memory as they
were before the step (`Bench.line`), even if the instruction changes its own bytes.

`Bench.Notes` is what one task does to the journal: a step that halts or fails leaves its entry
pending, and nothing but a step is noticed at all.  `Bench.journal_tells` says so of all tasks of a
run, and that the run is the one without the journal. -/

namespace Famicom

theorem Flags.shown_eq (f : Flags) : f.shown = f.toByte ||| 0x20#8 := by
  rcases f with ⟨c, z, i, d, b, u, v, n⟩
  revert c z i d b u v n
  decide

namespace Trace.Journal

/-! ### The entry of an instruction -/

/-- The entry of an instruction that began in the given state, with the opcode and the bytes after
it. -/
def noted (c : Cpu) (opcode : Byte) (rest : List Byte) : Entry :=
  { opening c with
    data := (opcode :: rest).map fun d => (d.toNat : Int)
    mnemonic := nameOf opcode.toNat }

theorem nameOf_toNat (d : Byte) :
    nameOf d.toNat = ((Instruction.decode d).map fun i => i.mnemonic.name).getD "" := by
  unfold nameOf
  rw [BitVec.ofInt_natCast, BitVec.ofNat_toNat, BitVec.setWidth_eq]
  cases Instruction.decode d <;> rfl

variable (j : Journal) {c : Cpu} {opcode : Byte} {rest : List Byte}

/-- The bytes after an opcode are added, and the name remains. -/
theorem observe_rest (entries : Array Entry) (e : Entry) (h : e.data ≠ []) (bs : List Byte) :
    (bs.map Notice.fetched).foldl observe ⟨entries, some e⟩ =
      ⟨entries, some { e with data := e.data ++ bs.map fun d => (d.toNat : Int) }⟩ := by
  induction bs generalizing e with
  | nil => simp
  | cons d bs ih =>
      have hstep : observe ⟨entries, some e⟩ (.fetched d) =
          ⟨entries, some { e with data := e.data ++ [(d.toNat : Int)] }⟩ := by
        simp [observe, fetch, withByte, h]
      rw [List.map_cons, List.foldl_cons, hstep, ih _ (by simp)]
      simp

theorem observe_bytes :
    (Notice.began c :: (opcode :: rest).map .fetched).foldl observe j =
      ⟨j.entries, some (noted c opcode rest)⟩ := by
  have hopcode : observe (observe j (.began c)) (.fetched opcode) =
      ⟨j.entries, some (noted c opcode [])⟩ := by
    simp [observe, begin, fetch, withByte, noted, opening]
  rw [List.map_cons, List.foldl_cons, List.foldl_cons, hopcode, observe_rest _ _ (by simp [noted])]
  simp [noted]

variable {β : Type} {o : Outcome (Option Nat) β}

theorem observe_completed {n : Nat} (hf : o.fetched = opcode :: rest)
    (hr : o.result = .ok (some n)) :
    (o.stepNotices c).foldl observe j = ⟨j.entries.push (noted c opcode rest), none⟩ := by
  rw [Outcome.stepNotices, List.foldl_append, Outcome.fetchNotices, hf, observe_bytes,
    Outcome.completion, hr]
  rfl

theorem observe_cutShort (hf : o.fetched = opcode :: rest) (hr : ∀ n, o.result ≠ .ok (some n)) :
    (o.stepNotices c).foldl observe j = ⟨j.entries, some (noted c opcode rest)⟩ := by
  rw [Outcome.stepNotices, List.foldl_append, Outcome.fetchNotices, hf, observe_bytes,
    Outcome.completion]
  split
  · rename_i n h
    exact absurd h (hr n)
  · rfl

end Trace.Journal

/-! ### Tasks -/

/-- The registers that can be assigned to. -/
inductive Cpu.Register where
  | a | x | y | sp | pc | flags
deriving Repr, DecidableEq

/-- The processor with a number assigned to a register, reduced to its range. -/
def Cpu.assign (c : Cpu) : Register → Int → Cpu
  | .a, n => { c with a := BitVec.ofInt 8 n }
  | .x, n => { c with x := BitVec.ofInt 8 n }
  | .y, n => { c with y := BitVec.ofInt 8 n }
  | .sp, n => { c with sp := BitVec.ofInt 8 n }
  | .pc, n => { c with pc := BitVec.ofInt 16 n }
  | .flags, n => { c with flags := .ofByte (BitVec.ofInt 8 n) }

/-- What is done with a processor on a memory. -/
inductive Task where
  | order (o : Cpu.Order)
  | assign (register : Cpu.Register) (value : Int)
  | write (address data : Int)
  | writeAll (address : Int) (data : List Byte)
deriving Repr, DecidableEq

/-- One instruction. -/
abbrev Task.step : Task := .order (.call .step)

/-- A processor on a full memory, and what came of all tasks so far: a fault, or the cycles if there
are any to report. -/
structure Bench where
  cpu : Cpu
  memory : FullMemory
  answers : List (Except Fault (Option Nat)) := []

namespace Bench

open Trace (Journal)

variable {σ : Type}

/-- The bench after an order with the given outcome. -/
def after (b : Bench) (o : Outcome (Option Nat) FullMemory) : Bench :=
  ⟨o.cpu, o.bus, b.answers ++ [o.result]⟩

/-- The bench after bytes were to be stored.  If they could not be, the memory is as it was. -/
def stored (b : Bench) : Except Fault FullMemory → Bench
  | .ok m => ⟨b.cpu, m, b.answers ++ [.ok none]⟩
  | .error fault => ⟨b.cpu, b.memory, b.answers ++ [.error fault]⟩

/-- The outcome of an order. -/
def outcome (b : Bench) (o : Cpu.Order) : Outcome (Option Nat) FullMemory :=
  o.program.run b.cpu b.memory

/-- One more task. -/
def perform (b : Bench) : Task → Bench
  | .order o => b.after (b.outcome o)
  | .assign register value => ⟨b.cpu.assign register value, b.memory, b.answers ++ [.ok none]⟩
  | .write address data => b.stored (b.memory.write address data)
  | .writeAll address data => b.stored (b.memory.writeAll address data)

/-- One more task, with an observer. -/
def watch (tell : σ → Notice → σ) (w : Bench × σ) (t : Task) : Bench × σ :=
  match t with
  | .order o =>
    let (r, s) := o.watch tell w.1.cpu w.1.memory w.2
    (w.1.after r, s)
  | t => (w.1.perform t, w.2)

/-! ### What is filed -/

/-- The byte at the program counter. -/
def opcode (b : Bench) : Byte := b.memory.busRead b.cpu.pc

/-- The state of the processor, and the given number of bytes from the program counter on. -/
def entry (b : Bench) (name : String) (size : Nat) : Trace.Entry where
  pc := b.cpu.pc.toNat
  data := (b.memory.bytesFrom b.cpu.pc size).map fun d => (d.toNat : Int)
  a := b.cpu.a.toNat
  x := b.cpu.x.toNat
  y := b.cpu.y.toNat
  flags := (b.cpu.flags.toByte ||| 0x20#8).toNat
  sp := b.cpu.sp.toNat
  mnemonic := name
  cycles := b.cpu.cycles

/-- The entry of an instruction. -/
def line (b : Bench) (i : Instruction) : Trace.Entry := b.entry i.mnemonic.name i.mode.instructionSize

/-- The entry of a task, if that is a step which is completed. -/
def executed? (b : Bench) : Task → Option Trace.Entry
  | .order (.call .step) =>
    match (b.outcome (.call .step)).result with
    | .ok (some _) => (Instruction.decode b.opcode).map b.line
    | _ => none
  | _ => none

/-- The entries of all steps that are completed, in order. -/
def executed (b : Bench) : List Task → List Trace.Entry
  | [] => []
  | t :: ts => (b.executed? t).toList ++ (b.perform t).executed ts

/-- What a task makes of a journal. -/
structure Notes (b : Bench) (t : Task) (j j' : Journal) : Prop where
  /-- A step that is completed has its entry filed. -/
  completed : t = .step → ∀ n, (b.outcome (.call .step)).result = .ok (some n) →
    ∃ i, Instruction.decode b.opcode = some i ∧ j' = ⟨j.entries.push (b.line i), none⟩
  /-- A step that halts leaves its entry pending. -/
  halted : t = .step → (b.outcome (.call .step)).result = .ok none →
    b.opcode = 0 ∧ j' = ⟨j.entries, some (b.entry Mnemonic.brk.name 1)⟩
  /-- So does a step that fails, and it fails for one reason only. -/
  failed : t = .step → ∀ fault, (b.outcome (.call .step)).result = .error fault →
    Instruction.decode b.opcode = none ∧ fault = .unknownOpcode b.opcode b.cpu.pc ∧
      j' = ⟨j.entries, some (b.entry "" 1)⟩
  /-- Nothing else is noticed. -/
  other : t ≠ .step → j' = j

/-! ### One task -/

variable {b : Bench} {n : Nat}

theorem ends_step (b : Bench) :
    Cpu.Call.Ends .step (fun _ => False) b.cpu b.memory (b.outcome (.call .step)).result :=
  Cpu.Call.ends_on_memory .step b.cpu b.memory

theorem fetches_iff {opcode : Byte} : Cpu.Fetches b.cpu b.memory opcode ↔ b.opcode = opcode :=
  and_iff_right (Memory.busFault?_full b.cpu.pc)

theorem known_of_completed (h : (b.outcome (.call .step)).result = .ok (some n)) :
    ∃ i, Instruction.decode b.opcode = some i ∧
      b.cpu.bytesAfter b.opcode + 1 = i.mode.instructionSize := by
  have hends := b.ends_step
  rw [h] at hends
  cases hd : Instruction.decode b.opcode with
  | none => cases (hends.unknown_iff _ _).mpr ⟨rfl, fetches_iff.mpr rfl, hd, rfl⟩
  | some i =>
      have hgo : ¬ (b.opcode = 0 ∧ b.cpu.breakHalts = true) := by
        rintro ⟨h0, hb⟩
        cases hends.halts_iff.mpr ⟨rfl, fetches_iff.mpr h0, hb⟩
      refine ⟨i, rfl, ?_⟩
      rw [Cpu.bytesAfter, if_neg hgo, hd]
      exact Nat.sub_add_cancel i.mode.one_le_instructionSize

theorem break_of_halted (h : (b.outcome (.call .step)).result = .ok none) :
    b.opcode = 0 ∧ b.cpu.bytesAfter b.opcode = 0 := by
  obtain ⟨-, hf, hb⟩ := b.ends_step.halts_iff.mp h
  have h0 : b.opcode = 0 := fetches_iff.mp hf
  exact ⟨h0, if_pos ⟨h0, hb⟩⟩

theorem unknown_of_failed {fault : Fault}
    (h : (b.outcome (.call .step)).result = .error fault) :
    Instruction.decode b.opcode = none ∧ fault = .unknownOpcode b.opcode b.cpu.pc ∧
      b.cpu.bytesAfter b.opcode = 0 := by
  have hends := b.ends_step
  obtain ⟨opcode, rfl⟩ : ∃ opcode, fault = .unknownOpcode opcode b.cpu.pc := by
    rcases hends.fault_cases fault h with hopcode | hfalse
    · exact hopcode
    · exact hfalse.elim
  obtain ⟨-, hf, hd, -⟩ := (hends.unknown_iff _ _).mp h
  obtain rfl : b.opcode = opcode := fetches_iff.mp hf
  refine ⟨hd, rfl, ?_⟩
  unfold Cpu.bytesAfter
  rw [hd, ite_self]

/-- The entry that the journal writes is the one of the state before the step. -/
theorem noted_eq_entry (b : Bench) (n : Nat) :
    Journal.noted b.cpu b.opcode (b.memory.bytesFrom (b.cpu.pc + 1) n) =
      b.entry (Journal.nameOf b.opcode.toNat) (n + 1) := by
  have hstatus : b.cpu.statusByte = b.cpu.flags.toByte ||| 0x20#8 := b.cpu.flags.shown_eq
  unfold Journal.noted Journal.opening entry
  rw [hstatus]
  rfl

/-- The notices of a task. -/
def notices (b : Bench) : Task → List Notice
  | .order o => o.notices b.cpu (b.outcome o)
  | _ => []

theorem watch_eq (tell : σ → Notice → σ) (b : Bench) (s : σ) (t : Task) :
    watch tell (b, s) t = (b.perform t, (b.notices t).foldl tell s) := by
  cases t with
  | order o =>
      unfold watch
      dsimp only
      rw [o.watch_eq tell b.cpu b.memory s]
      rfl
  | assign | write | writeAll => rfl

theorem notices_of_ne_step {t : Task} (h : t ≠ .step) : b.notices t = [] := by
  cases t with
  | order o =>
      have hne : o ≠ .call .step := fun ho => h (congrArg Task.order ho)
      have hall : (o.program b.cpu).FetchesAll 0 0 := Cpu.Order.fetchesAll_of_ne_step hne
      have hf : (b.outcome o).fetched = [] := hall.full b.memory
      rw [notices, Cpu.Order.notices_of_ne_step hne, Outcome.fetchNotices, hf]
      rfl
  | assign | write | writeAll => rfl

/-- **What one task makes of a journal.** -/
theorem notes (b : Bench) (t : Task) (j : Journal) :
    b.Notes t j ((b.notices t).foldl Journal.observe j) := by
  have hf : (b.outcome (.call .step)).fetched =
      b.opcode :: b.memory.bytesFrom (b.cpu.pc + 1) (b.cpu.bytesAfter b.opcode) :=
    Cpu.fetched_step_full b.cpu b.memory
  have hcut (hr : ∀ n, (b.outcome (.call .step)).result ≠ .ok (some n)) :
      (b.notices .step).foldl Journal.observe j = ⟨j.entries,
        some (b.entry (Journal.nameOf b.opcode.toNat) (b.cpu.bytesAfter b.opcode + 1))⟩ := by
    rw [← noted_eq_entry]
    exact j.observe_cutShort hf hr
  constructor
  · rintro rfl n hr
    obtain ⟨i, hd, hsize⟩ := known_of_completed hr
    have hj := j.observe_completed (c := b.cpu) hf hr
    rw [noted_eq_entry, hsize, Journal.nameOf_toNat, hd] at hj
    exact ⟨i, hd, hj⟩
  · rintro rfl hr
    obtain ⟨h0, hsize⟩ := break_of_halted hr
    have hj := hcut fun n hn => by cases hr.symm.trans hn
    rw [hsize, Journal.nameOf_toNat, h0, Cpu.decode_zero] at hj
    exact ⟨h0, hj⟩
  · rintro rfl fault hr
    obtain ⟨hd, hfault, hsize⟩ := unknown_of_failed hr
    have hj := hcut fun n hn => by cases hr.symm.trans hn
    rw [hsize, Journal.nameOf_toNat, hd] at hj
    exact ⟨hd, hfault, hj⟩
  · intro hne
    rw [notices_of_ne_step hne]
    rfl

/-! ### All tasks of a run -/

theorem Notes.entries {t : Task} {j j' : Journal} (h : b.Notes t j j') :
    j'.entries.toList = j.entries.toList ++ (b.executed? t).toList := by
  by_cases ht : t = .step
  · subst ht
    cases hr : (b.outcome (.call .step)).result with
    | error fault =>
        obtain ⟨-, -, rfl⟩ := h.failed rfl fault hr
        simp [executed?, hr]
    | ok r =>
        cases r with
        | none =>
            obtain ⟨-, rfl⟩ := h.halted rfl hr
            simp [executed?, hr]
        | some n =>
            obtain ⟨i, hd, rfl⟩ := h.completed rfl n hr
            simp [executed?, hr, hd]
  · have hnone : b.executed? t = none := by
      unfold executed?
      split
      · exact absurd rfl ht
      · rfl
    rw [h.other ht, hnone]
    simp

theorem foldl_watch_fst (tell : σ → Notice → σ) (w : Bench × σ) (ts : List Task) :
    (ts.foldl (watch tell) w).1 = ts.foldl perform w.1 := by
  induction ts generalizing w with
  | nil => rfl
  | cons t ts ih =>
      rw [List.foldl_cons, ih, watch_eq tell w.1 w.2 t]
      rfl

theorem entries_foldl_watch (b : Bench) (j : Journal) (ts : List Task) :
    (ts.foldl (watch Journal.observe) (b, j)).2.entries.toList =
      j.entries.toList ++ b.executed ts := by
  induction ts generalizing b j with
  | nil => simp [executed]
  | cons t ts ih =>
      have hentries := (b.notes t j).entries
      rw [List.foldl_cons, watch_eq, ih, hentries, executed, List.append_assoc]

/-- **A journal tells what was executed.**  With the journal attached all tasks have the answers
that they have without it, and processor and memory become the same.  The journal gains the entries
of the steps that are completed, in order, and `Notes` tells what the next task makes of it. -/
theorem journal_tells (b : Bench) (j : Journal) (ts : List Task) :
    let w := ts.foldl (watch Journal.observe) (b, j)
    w.1 = ts.foldl perform b ∧
      w.2.entries.toList = j.entries.toList ++ b.executed ts ∧
      ∀ t, w.1.Notes t w.2 (watch Journal.observe w t).2 := by
  intro w
  refine ⟨foldl_watch_fst _ (b, j) ts, entries_foldl_watch b j ts, ?_⟩
  intro t
  have hw := watch_eq Journal.observe w.1 w.2 t
  rw [hw]
  exact w.1.notes t w.2

end Bench

end Famicom
