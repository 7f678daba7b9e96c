import Mathlib.Data.List.Nodup
import Famicom.Proofs.Cpu.Frame
import Famicom.Proofs.LongNumber

/-! # Shifts of long numbers

The processor shifts bytes.  Programs shift longer numbers byte by byte: upwards from the lowest
byte, downwards from the highest.  The first instruction is a shift, or else a rotation if the carry
is to come in; all others are rotations, and the carry is what links them.  `Cpu.Pass` is what all
these programs have in common.

A byte with the carry that goes out above it is doubled, or a byte with the carry that goes out below
it is halved, by an instruction (`Mnemonic.toNat_shift_up`, `Mnemonic.toNat_shift_down`).  Since the
carry that goes out of one byte comes into the next, the same is true of the number that the bytes
make up (`Cpu.Pass.longNumber_up`, `Cpu.Pass.longNumber_down`).  Neither pass loses anything if all
its instructions are rotations, and so the one takes back the other (`Cpu.long_shift`). -/

namespace Famicom

open LongNumber
open Program
open Unbounded (Flag)

/-! ### One byte -/

namespace Mnemonic

/-- The bit that an instruction shifts in, given the carry. -/
def shiftedIn (carry : Bool) : Mnemonic → Bool
  | rol | ror => carry
  | _ => false

/-- The change that a shift or a rotation makes, before flags tell of it. -/
def shift? : Mnemonic → Option Flags.Change
  | asl => some Flags.shiftLeft
  | lsr => some Flags.shiftRight
  | rol => some Flags.rotateLeft
  | ror => some Flags.rotateRight
  | _ => none

theorem exists_shift {m : Mnemonic} (h : m ∈ shifts) : ∃ change, m.shift? = some change := by
  simp only [shifts, List.mem_cons, List.not_mem_nil, or_false] at h
  rcases h with rfl | rfl | rfl | rfl <;> exact ⟨_, rfl⟩

section
variable {m : Mnemonic} {change : Flags.Change} (h : m.shift? = some change)
include h

theorem operation_of_shift : m.operation = .alter change.reported fun _ c => c := by
  cases m with
  | asl | lsr | rol | ror =>
      cases h
      rfl
  | _ => cases h

theorem flagsChanged_of_shift : m.flagsChanged = [.negative, .zero, .carry] := by
  cases m with
  | asl | lsr | rol | ror => rfl
  | _ => cases h

/-- To shift upwards is to double, with the carry behind the highest bit. -/
theorem toNat_shift_up (hm : m = asl ∨ m = rol) (b : Byte) (f : Flags) :
    (change b f).1.toNat + 256 * (change b f).2.carry.toNat =
      2 * b.toNat + (m.shiftedIn f.carry).toNat := by
  have hb := b.isLt
  have hc := f.carry.toNat_le
  rcases hm with rfl | rfl
  · cases h
    simp only [Flags.shiftLeft, shiftedIn, BitVec.toNat_ofNat]
    by_cases hbit : 128 ≤ b.toNat <;> simp [hbit] <;> omega
  · cases h
    simp only [Flags.rotateLeft, shiftedIn, BitVec.toNat_ofNat]
    by_cases hbit : 128 ≤ b.toNat <;> simp [hbit] <;> omega

/-- To shift downwards is to halve, with the carry before the lowest bit. -/
theorem toNat_shift_down (hm : m = lsr ∨ m = ror) (b : Byte) (f : Flags) :
    2 * (change b f).1.toNat + (change b f).2.carry.toNat =
      b.toNat + 256 * (m.shiftedIn f.carry).toNat := by
  have hb := b.isLt
  have hc := f.carry.toNat_le
  rcases hm with rfl | rfl
  · cases h
    simp only [Flags.shiftRight, shiftedIn, BitVec.toNat_ofNat]
    rcases Nat.mod_two_eq_zero_or_one b.toNat with hbit | hbit <;> simp [hbit] <;> omega
  · cases h
    simp only [Flags.rotateRight, shiftedIn, BitVec.toNat_ofNat]
    rcases Nat.mod_two_eq_zero_or_one b.toNat with hbit | hbit <;> simp [hbit] <;> omega

end

end Mnemonic

/-- The number that cells hold, the lowest byte first. -/
def Memory.longNumber (m : FullMemory) (cells : List Word) : Nat := value (cells.map m.busRead)

namespace Memory

variable (m : FullMemory) (a : Word) (as : List Word)

theorem longNumber_cons : m.longNumber (a :: as) = (m.busRead a).toNat + 256 * m.longNumber as :=
  value_cons ..

theorem longNumber_concat :
    m.longNumber (as ++ [a]) = m.longNumber as + 256 ^ as.length * (m.busRead a).toNat := by
  rw [longNumber, List.map_append, List.map_singleton, value_concat, List.length_map]
  rfl

theorem longNumber_lt : m.longNumber as < 256 ^ as.length := by
  have h := value_lt (as.map m.busRead)
  rwa [List.length_map] at h

/-- The number depends on no other cell. -/
theorem longNumber_congr {m m' : FullMemory} {as : List Word}
    (h : ∀ a ∈ as, m'.busRead a = m.busRead a) : m'.longNumber as = m.longNumber as :=
  congrArg value (List.map_congr_left h)

/-- The number tells what is in the cells. -/
theorem longNumber_injective {m m' : FullMemory} {as : List Word}
    (h : m'.longNumber as = m.longNumber as) : ∀ a ∈ as, m'.busRead a = m.busRead a := by
  have hlength : (as.map m'.busRead).length = (as.map m.busRead).length := by
    rw [List.length_map, List.length_map]
  exact List.map_inj_left.mp (value_injective hlength h)

end Memory

namespace Cpu

/-! ### One instruction -/

/-- The processor is at an instruction with the given mnemonic, and this cell is its operand. -/
def TakesCell (cpu : Cpu) (m : FullMemory) (mnemonic : Mnemonic) (a : Word) : Prop :=
  ∃ i, Instruction.decode (m.busRead cpu.pc) = some i ∧ i.mnemonic = mnemonic ∧
    i.mode.effectiveAddress? cpu m.busRead = some a

/-- An instruction is completed and has changed a cell, and nothing but the flags tells of it: zero
and negative of the byte that it has written. -/
structure ChangesCell (cpu : Cpu) (m : FullMemory) (a : Word) (o : Outcome (Option Nat) FullMemory) :
    Prop where
  completed : ∃ n, o.result = .ok (some n)
  zero_iff : o.cpu.flags.zero = true ↔ o.bus.busRead a = 0
  negative_iff : o.cpu.flags.negative = true ↔ 128 ≤ (o.bus.busRead a).toNat
  flags_eq : ∀ flag ∉ [Flag.negative, .zero, .carry], flag.get o.cpu.flags = flag.get cpu.flags
  a_eq : o.cpu.a = cpu.a
  x_eq : o.cpu.x = cpu.x
  y_eq : o.cpu.y = cpu.y
  sp_eq : o.cpu.sp = cpu.sp
  memory : ∀ c ≠ a, o.bus.busRead c = m.busRead c

section
variable {op : Mnemonic} {change : Flags.Change} {cpu : Cpu} {m : FullMemory} {a : Word}

/-- A shift of a cell. -/
theorem step_shift (hop : op.shift? = some change) (h : cpu.TakesCell m op a) :
    cpu.ChangesCell m a (step.run cpu m) ∧
      (step.run cpu m).bus.busRead a = (change (m.busRead a) cpu.flags).1 ∧
      (step.run cpu m).cpu.flags.carry = (change (m.busRead a) cpu.flags).2.carry := by
  obtain ⟨i, hd, rfl, ha⟩ := h
  have hoperation := Mnemonic.operation_of_shift hop
  have hbrk : i.mnemonic ≠ .brk := by
    intro h
    rw [h] at hop
    cases hop
  rw [← Mode.address?_operandAt] at ha
  obtain ⟨crossed, ho⟩ := Operand.eq_cell_of_address? ha
  have hgo := not_halt_of_decode hd hbrk
  have hflags : ∀ flag ∉ [Flag.negative, .zero, .carry],
      flag.get (step.run cpu m).cpu.flags = flag.get cpu.flags := by
    intro flag hflag
    refine (frame_of_decode hd hgo).parts (.flag flag) ?_
    rintro (hmay | ⟨hpart, -⟩)
    · exact hflag (Mnemonic.flagsChanged_of_shift hop ▸ hmay)
    · cases hpart
  rw [step_performed hd hgo, hoperation, ho] at hflags ⊢
  have hread : ∀ d, (m.busWrite a d).busRead a = d := m.busRead_busWrite_self a
  refine ⟨?_, hread _, rfl⟩
  exact
    { completed := ⟨_, rfl⟩
      zero_iff := by
        show ((change (m.busRead a) cpu.flags).1 == 0) = true ↔ (m.busWrite a _).busRead a = 0
        rw [hread, beq_iff_eq]
        rfl
      negative_iff := by
        show (change (m.busRead a) cpu.flags).1.msb = true ↔ 128 ≤ ((m.busWrite a _).busRead a).toNat
        rw [hread, BitVec.msb_eq_decide, decide_eq_true_eq]
        rfl
      flags_eq := hflags
      a_eq := rfl
      x_eq := rfl
      y_eq := rfl
      sp_eq := rfl
      memory := fun c hc => m.busRead_busWrite_ne _ (Ne.symm hc) }

end

/-! ### One pass -/

/-- Instructions work on the cells of a number one after the other.  `Pass cells ops c m c' m'` says
that there were the processor `c` and the memory `m` at first, that each instruction in turn found
its cell, and that there are `c'` and `m'` after the last.  Before each instruction anything may
happen that leaves alone the carry and the cells of the number. -/
inductive Pass (cells : List Word) :
    List (Mnemonic × Word) → Cpu → FullMemory → Cpu → FullMemory → Prop
  | nil (c : Cpu) (m : FullMemory) : Pass cells [] c m c m
  | cons {c cpu c' : Cpu} {m memory m' : FullMemory} {op : Mnemonic} {a : Word}
      {ops : List (Mnemonic × Word)} (hcarry : cpu.flags.carry = c.flags.carry)
      (hcells : ∀ d ∈ cells, memory.busRead d = m.busRead d) (hat : cpu.TakesCell memory op a)
      (rest : Pass cells ops (step.run cpu memory).cpu (step.run cpu memory).bus c' m') :
      Pass cells ((op, a) :: ops) c m c' m'

/-- The first instruction works on the first cell, and another on each of the others. -/
def chain (first next : Mnemonic) : List Word → List (Mnemonic × Word)
  | [] => []
  | a :: as => (first, a) :: as.map (next, ·)

theorem chain_cons (first next : Mnemonic) (a : Word) (as : List Word) :
    chain first next (a :: as) = (first, a) :: chain next next as := by
  cases as <;> rfl

section
variable {cells : List Word} {ops : List (Mnemonic × Word)} {c c' : Cpu} {m m' : FullMemory}

theorem Pass.of_append {before after : List (Mnemonic × Word)}
    (h : Pass cells (before ++ after) c m c' m') :
    ∃ c₁ m₁, Pass cells before c m c₁ m₁ ∧ Pass cells after c₁ m₁ c' m' := by
  induction before generalizing c m with
  | nil => exact ⟨c, m, .nil c m, h⟩
  | cons op before ih =>
      cases h with
      | cons hcarry hcells hat rest =>
          obtain ⟨c₁, m₁, hbefore, hafter⟩ := ih rest
          exact ⟨c₁, m₁, .cons hcarry hcells hat hbefore, hafter⟩

/-- What the first instruction of a pass does to the carry and to the cells of the number. -/
theorem Pass.uncons {op : Mnemonic} {change : Flags.Change} {a : Word} (ha : a ∈ cells)
    (hop : op.shift? = some change) (h : Pass cells ((op, a) :: ops) c m c' m') :
    ∃ c₁ m₁ f, Pass cells ops c₁ m₁ c' m' ∧ f.carry = c.flags.carry ∧
      m₁.busRead a = (change (m.busRead a) f).1 ∧
      c₁.flags.carry = (change (m.busRead a) f).2.carry ∧
      ∀ d ∈ cells, d ≠ a → m₁.busRead d = m.busRead d := by
  cases h with
  | @cons _ cpu _ _ memory _ _ _ _ hcarry hcells hat rest =>
      obtain ⟨hchanges, hbyte, hcarry'⟩ := step_shift hop hat
      rw [hcells a ha] at hbyte hcarry'
      exact ⟨_, _, cpu.flags, rest, hcarry, hbyte, hcarry',
        fun d hd hne => (hchanges.memory d hne).trans (hcells d hd)⟩

/-- A cell that is not passed keeps its byte. -/
theorem Pass.busRead_eq (hops : ∀ x ∈ ops, x.1 ∈ Mnemonic.shifts ∧ x.2 ∈ cells)
    (h : Pass cells ops c m c' m') {d : Word} (hd : d ∈ cells) (hout : d ∉ ops.map Prod.snd) :
    m'.busRead d = m.busRead d := by
  induction ops generalizing c m with
  | nil =>
      cases h
      rfl
  | cons x ops ih =>
      obtain ⟨⟨hshift, hx⟩, hops⟩ := List.forall_mem_cons.mp hops
      obtain ⟨change, hchange⟩ := Mnemonic.exists_shift hshift
      obtain ⟨c₁, m₁, f, rest, -, -, -, hothers⟩ := h.uncons hx hchange
      rw [List.map_cons, List.mem_cons, not_or] at hout
      rw [ih hops rest hout.2]
      exact hothers d hd hout.1

/-- The first instruction of a chain, and what all the others leave of its byte and of theirs. -/
theorem Pass.uncons_chain {first next : Mnemonic} {change : Flags.Change} {a : Word} {as : List Word}
    (hfirst : first.shift? = some change) (hnext : next ∈ Mnemonic.shifts) (hnodup : (a :: as).Nodup)
    (hsub : a :: as ⊆ cells) (h : Pass cells (chain first next (a :: as)) c m c' m') :
    ∃ c₁ m₁ f, Pass cells (chain next next as) c₁ m₁ c' m' ∧ f.carry = c.flags.carry ∧
      m'.busRead a = (change (m.busRead a) f).1 ∧
      c₁.flags.carry = (change (m.busRead a) f).2.carry ∧
      ∀ d ∈ as, m₁.busRead d = m.busRead d := by
  obtain ⟨ha, hsub⟩ := List.cons_subset.mp hsub
  obtain ⟨hout, -⟩ := List.nodup_cons.mp hnodup
  rw [chain_cons] at h
  obtain ⟨c₁, m₁, f, rest, hcarry, hbyte, hcarry', hothers⟩ := h.uncons ha hfirst
  have hops : chain next next as = as.map (next, ·) := by
    cases as <;> rfl
  refine ⟨c₁, m₁, f, rest, hcarry, ?_, hcarry', ?_⟩
  · rw [← hbyte]
    refine rest.busRead_eq ?_ ha ?_
    · rw [hops]
      intro x hx
      obtain ⟨d, hd, rfl⟩ := List.mem_map.mp hx
      exact ⟨hnext, hsub hd⟩
    · rw [hops, List.map_map]
      exact fun hmem => hout (List.map_id as ▸ hmem)
  · intro d hd
    refine hothers d (hsub hd) ?_
    rintro rfl
    exact hout hd

/-- **Upwards, a number is doubled.**  The carry goes out above the highest byte. -/
theorem Pass.longNumber_up {first : Mnemonic} {as : List Word}
    (hfirst : first = .asl ∧ as ≠ [] ∨ first = .rol) (hnodup : as.Nodup) (hsub : as ⊆ cells)
    (h : Pass cells (chain first .rol as) c m c' m') :
    m'.longNumber as + 256 ^ as.length * c'.flags.carry.toNat =
      2 * m.longNumber as + (first.shiftedIn c.flags.carry).toNat := by
  induction as generalizing first c m with
  | nil =>
      obtain ⟨-, hne⟩ | rfl := hfirst
      · exact absurd rfl hne
      · cases h
        simp [Memory.longNumber, Mnemonic.shiftedIn]
  | cons a as ih =>
      have hshift : first = .asl ∨ first = .rol := hfirst.imp_left And.left
      obtain ⟨change, hchange⟩ : ∃ change, first.shift? = some change := by
        rcases hshift with rfl | rfl <;> exact ⟨_, rfl⟩
      obtain ⟨c₁, m₁, f, rest, hcarry, hbyte, hcarry', hothers⟩ :=
        h.uncons_chain hchange (by decide) hnodup hsub
      have hhead := Mnemonic.toNat_shift_up hchange hshift (m.busRead a) f
      have htail := ih (.inr rfl) (List.nodup_cons.mp hnodup).2 (List.cons_subset.mp hsub).2 rest
      rw [← hbyte, ← hcarry', hcarry] at hhead
      rw [Memory.longNumber_congr hothers, Mnemonic.shiftedIn] at htail
      rw [Memory.longNumber_cons, Memory.longNumber_cons, List.length_cons, Nat.pow_succ]
      linarith

/-- **Downwards, a number is halved.**  The carry goes out below the lowest byte. -/
theorem Pass.longNumber_down {first : Mnemonic} {as : List Word}
    (hfirst : first = .lsr ∧ as ≠ [] ∨ first = .ror) (hnodup : as.Nodup) (hsub : as ⊆ cells)
    (h : Pass cells (chain first .ror as) c m c' m') :
    2 * m'.longNumber as.reverse + c'.flags.carry.toNat =
      m.longNumber as.reverse + 256 ^ as.length * (first.shiftedIn c.flags.carry).toNat := by
  induction as generalizing first c m with
  | nil =>
      obtain ⟨-, hne⟩ | rfl := hfirst
      · exact absurd rfl hne
      · cases h
        simp [Memory.longNumber, Mnemonic.shiftedIn]
  | cons a as ih =>
      have hshift : first = .lsr ∨ first = .ror := hfirst.imp_left And.left
      obtain ⟨change, hchange⟩ : ∃ change, first.shift? = some change := by
        rcases hshift with rfl | rfl <;> exact ⟨_, rfl⟩
      obtain ⟨c₁, m₁, f, rest, hcarry, hbyte, hcarry', hothers⟩ :=
        h.uncons_chain hchange (by decide) hnodup hsub
      have hhead := Mnemonic.toNat_shift_down hchange hshift (m.busRead a) f
      have htail := ih (.inr rfl) (List.nodup_cons.mp hnodup).2 (List.cons_subset.mp hsub).2 rest
      rw [← hbyte, ← hcarry', hcarry] at hhead
      rw [Memory.longNumber_congr fun d hd => hothers d (List.mem_reverse.mp hd),
        Mnemonic.shiftedIn] at htail
      -- the byte stands above the others
      have hscaled := congrArg (256 ^ as.length * ·) hhead
      rw [List.reverse_cons, Memory.longNumber_concat, Memory.longNumber_concat, List.length_reverse,
        List.length_cons, Nat.pow_succ]
      linarith

/-- Up by rotations and down again, or down and up again: nothing is lost. -/
theorem Pass.there_and_back (hnodup : cells.Nodup)
    (h : Pass cells (chain .rol .rol cells ++ chain .ror .ror cells.reverse) c m c' m' ∨
      Pass cells (chain .ror .ror cells.reverse ++ chain .rol .rol cells) c m c' m') :
    m'.longNumber cells = m.longNumber cells ∧
      c'.flags.carry.toNat = c.flags.carry.toNat := by
  have hreverse : cells.reverse.Nodup := List.nodup_reverse.mpr hnodup
  have hsub : cells.reverse ⊆ cells := fun _ => List.mem_reverse.mp
  have hc := c.flags.carry.toNat_le
  have hc' := c'.flags.carry.toNat_le
  rcases h with h | h
  · obtain ⟨c₁, m₁, hup, hdown⟩ := h.of_append
    have hdouble := hup.longNumber_up (.inr rfl) hnodup (List.Subset.refl cells)
    have hhalf := hdown.longNumber_down (.inr rfl) hreverse hsub
    rw [List.reverse_reverse, List.length_reverse] at hhalf
    simp only [Mnemonic.shiftedIn] at hdouble hhalf
    omega
  · obtain ⟨c₁, m₁, hdown, hup⟩ := h.of_append
    have hdouble := hup.longNumber_up (.inr rfl) hnodup (List.Subset.refl cells)
    have hhalf := hdown.longNumber_down (.inr rfl) hreverse hsub
    rw [List.reverse_reverse, List.length_reverse] at hhalf
    simp only [Mnemonic.shiftedIn] at hdouble hhalf
    have hlt := m.longNumber_lt cells
    have hlt' := m'.longNumber_lt cells
    have hsame : m'.longNumber cells + 256 ^ cells.length * c'.flags.carry.toNat =
        m.longNumber cells + 256 ^ cells.length * c.flags.carry.toNat := hdouble.trans hhalf
    have hnumber : m'.longNumber cells = m.longNumber cells := by
      have hmod := congrArg (· % 256 ^ cells.length) hsame
      simpa only [Nat.add_mul_mod_self_left, Nat.mod_eq_of_lt hlt, Nat.mod_eq_of_lt hlt'] using hmod
    rw [hnumber] at hsame
    exact ⟨hnumber, Nat.eq_of_mul_eq_mul_left (by positivity) (Nat.add_left_cancel hsame)⟩

/-- An instruction can be put into three cells beside the number. -/
theorem exists_takesCell {p : Word} (hp : ∀ i ∈ [p, p + 1, p + 2], i ∉ cells) {op : Mnemonic}
    (hop : op ∈ Mnemonic.shifts) (a : Word) (c : Cpu) (m : FullMemory) :
    ∃ (cpu : Cpu) (memory : FullMemory), cpu.flags.carry = c.flags.carry ∧
      (∀ d ∈ cells, memory.busRead d = m.busRead d) ∧ cpu.TakesCell memory op a := by
  obtain ⟨opcode, hopcode⟩ :
      ∃ opcode, Instruction.decode opcode = some ⟨op, .absolute, true⟩ := by
    simp only [Mnemonic.shifts, List.mem_cons, List.not_mem_nil, or_false] at hop
    rcases hop with rfl | rfl | rfl | rfl
    · exact ⟨0x0E, by decide⟩
    · exact ⟨0x4E, by decide⟩
    · exact ⟨0x2E, by decide⟩
    · exact ⟨0x6E, by decide⟩
  obtain ⟨hp₀, hp₁, hp₂⟩ : p ∉ cells ∧ p + 1 ∉ cells ∧ p + 2 ∉ cells := by simpa using hp
  refine ⟨{ c with pc := p },
    ((m.busWrite p opcode).busWrite (p + 1) a.low).busWrite (p + 2) a.high, rfl, ?_,
    ⟨op, .absolute, true⟩, ?_, rfl, ?_⟩
  · intro d hd
    rw [Memory.busRead_busWrite_ne _ _ (ne_of_mem_of_not_mem hd hp₂).symm,
      Memory.busRead_busWrite_ne _ _ (ne_of_mem_of_not_mem hd hp₁).symm,
      Memory.busRead_busWrite_ne _ _ (ne_of_mem_of_not_mem hd hp₀).symm]
  · rw [Memory.busRead_busWrite_ne _ _ (by bv_omega), Memory.busRead_busWrite_ne _ _ (by bv_omega),
      Memory.busRead_busWrite_self]
    exact hopcode
  · simp only [Mode.effectiveAddress?]
    rw [Memory.busRead_busWrite_self, Memory.busRead_busWrite_ne _ _ (by bv_omega),
      Memory.busRead_busWrite_self, Word.ofBytes_high_low]

/-- Whatever cells are to be passed, there are passes. -/
theorem exists_pass {p : Word} (hp : ∀ i ∈ [p, p + 1, p + 2], i ∉ cells)
    (hops : ∀ x ∈ ops, x.1 ∈ Mnemonic.shifts) (c : Cpu) (m : FullMemory) :
    ∃ c' m', Pass cells ops c m c' m' := by
  induction ops generalizing c m with
  | nil => exact ⟨c, m, .nil c m⟩
  | cons x ops ih =>
      obtain ⟨hop, hops⟩ := List.forall_mem_cons.mp hops
      obtain ⟨cpu, memory, hcarry, hcells, hat⟩ := exists_takesCell hp hop x.2 c m
      obtain ⟨c', m', rest⟩ := ih hops (step.run cpu memory).cpu (step.run cpu memory).bus
      exact ⟨c', m', .cons hcarry hcells hat rest⟩

end

/-- **Shifts and rotations of numbers of any length.**  Let a number stand in any different cells,
at least one, and let it be shifted cell by cell.  Each instruction is completed; flags zero and
negative tell of the byte that it has written, and no other flag but the carry, no register and no
other cell is changed.  A shift upwards doubles the number, as far as the cells hold it, and the
carry is the bit that was the highest; a shift downwards halves it, and the carry is the remainder.
If the number is rotated upwards and then downwards, or the other way round, then each byte and the
carry are restored. -/
theorem long_shift {cells : List Word} (hcells : cells ≠ []) (hnodup : cells.Nodup) :
    (∀ op ∈ Mnemonic.shifts, ∀ cpu m a, TakesCell cpu m op a →
      ChangesCell cpu m a (step.run cpu m)) ∧
    ∀ c m c' m',
      (Pass cells (chain .asl .rol cells) c m c' m' →
        m'.longNumber cells = 2 * m.longNumber cells % 256 ^ cells.length ∧
          c'.flags.carry = (m.longNumber cells).testBit (8 * cells.length - 1)) ∧
      (Pass cells (chain .lsr .ror cells.reverse) c m c' m' →
        m'.longNumber cells = m.longNumber cells / 2 ∧
          c'.flags.carry.toNat = m.longNumber cells % 2) ∧
      (Pass cells (chain .rol .rol cells ++ chain .ror .ror cells.reverse) c m c' m' ∨
          Pass cells (chain .ror .ror cells.reverse ++ chain .rol .rol cells) c m c' m' →
        (∀ a ∈ cells, m'.busRead a = m.busRead a) ∧ c'.flags.carry = c.flags.carry) := by
  refine ⟨?_, fun c m c' m' => ⟨?_, ?_, ?_⟩⟩
  · intro op hop cpu m a h
    obtain ⟨change, hchange⟩ := Mnemonic.exists_shift hop
    exact (step_shift hchange h).1
  · intro h
    have hdouble := h.longNumber_up (.inl ⟨rfl, hcells⟩) hnodup (List.Subset.refl cells)
    have hlt := m.longNumber_lt cells
    have hlt' := m'.longNumber_lt cells
    have hpow := two_pow_pred cells.length (List.length_pos_iff.mpr hcells)
    simp only [Mnemonic.shiftedIn, Bool.toNat_false, Nat.add_zero] at hdouble
    constructor
    · rw [← hdouble, Nat.add_mul_mod_self_left, Nat.mod_eq_of_lt hlt']
    · cases hcarry : c'.flags.carry with
      | false =>
          rw [hcarry, Bool.toNat_false, Nat.mul_zero, Nat.add_zero] at hdouble
          exact (Nat.testBit_lt_two_pow (by omega)).symm
      | true =>
          rw [hcarry, Bool.toNat_true, Nat.mul_one] at hdouble
          exact (Nat.testBit_of_two_pow_le_and_two_pow_add_one_gt (by omega)
            (by rw [Nat.pow_succ]; omega)).symm
  · intro h
    have hhalf := h.longNumber_down (.inl ⟨rfl, mt List.reverse_eq_nil_iff.mp hcells⟩)
      (List.nodup_reverse.mpr hnodup) fun _ => List.mem_reverse.mp
    have hcarry := c'.flags.carry.toNat_le
    rw [List.reverse_reverse] at hhalf
    simp only [Mnemonic.shiftedIn, Bool.toNat_false, Nat.mul_zero, Nat.add_zero] at hhalf
    omega
  · intro h
    obtain ⟨hnumber, hcarry⟩ := Pass.there_and_back hnodup h
    refine ⟨Memory.longNumber_injective hnumber, Bool.eq_iff_iff.mpr ?_⟩
    rw [← Bool.toNat_eq_one, ← Bool.toNat_eq_one, hcarry]

/-- There are such passes: here a number of two bytes, its highest bit set, is shifted upwards. -/
theorem long_shift_up :
    ∃ m c' m', m.longNumber [0x10, 0x11] = 0x8001 ∧
      Pass [0x10, 0x11] (chain .asl .rol [0x10, 0x11]) {} m c' m' ∧
      m'.longNumber [0x10, 0x11] = 2 ∧ c'.flags.carry = true := by
  have hcells : ([0x10, 0x11] : List Word) ≠ [] := List.cons_ne_nil _ _
  obtain ⟨m, hm⟩ : ∃ m : FullMemory, m.longNumber [0x10, 0x11] = 0x8001 := by
    refine ⟨.ofFn fun i => if i = 0x10 then 0x01 else 0x80, ?_⟩
    simp only [Memory.longNumber, List.map_cons, List.map_nil, Memory.busRead_ofFn]
    decide
  obtain ⟨c', m', h⟩ : ∃ c' m', Pass [0x10, 0x11] (chain .asl .rol [0x10, 0x11]) {} m c' m' :=
    exists_pass (p := 0x0200) (by simp) (by decide) {} m
  obtain ⟨-, hpass⟩ := long_shift hcells (by decide)
  obtain ⟨hnumber, hcarry⟩ := (hpass {} m c' m').1 h
  rw [hm] at hnumber hcarry
  exact ⟨m, c', m', hm, h, hnumber, hcarry⟩

end Cpu

end Famicom
