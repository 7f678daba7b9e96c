import Famicom.Proofs.Cpu.WholeStep
import Famicom.Proofs.LongNumber

/-! # Addition and subtraction of long numbers

The processor adds bytes.  Programs add longer numbers byte by byte from the lowest: they load a
byte of the one number, add the byte of the other, keep the result, and leave the carry alone until
the next column.  `Cpu.Columns` is what all these programs have in common.

One column adds up (`Cpu.toNat_addA`), and if it is the last, overflow and negative are right about
the signed sum (`Cpu.overflow_addA`).  A column more below leaves the flags of the highest column
right, since what it carries is all that the others need of it: so the whole sum is right, by
induction on the columns (`Cpu.Columns.isSum`).  A subtraction adds the complement. -/

namespace Famicom

open LongNumber
open Program

/-- The byte that is added to the accumulator in order to add or to subtract an operand. -/
def Mnemonic.addend? : Mnemonic → Option (Byte → Byte)
  | adc => some id
  | sbc => some (~~~·)
  | _ => none

namespace Cpu

/-! ### One column -/

section
variable (b : Byte) (cpu : Cpu)

/-- The sum and its carry. -/
theorem toNat_addA :
    (cpu.addA b).a.toNat + 256 * (cpu.addA b).flags.carry.toNat =
      cpu.a.toNat + b.toNat + cpu.flags.carry.toNat := by
  have ha := cpu.a.isLt
  have hb := b.isLt
  have hc := cpu.flags.carry.toNat_le
  simp only [addA, BitVec.toNat_ofNat]
  by_cases hsum : 256 ≤ cpu.a.toNat + b.toNat + cpu.flags.carry.toNat
  · simp only [hsum, decide_true, Bool.toNat_true]
    omega
  · simp only [hsum, decide_false, Bool.toNat_false]
    omega

/-- Overflow tells of the signed sum. -/
theorem overflow_addA :
    (cpu.addA b).flags.overflow = true ↔
      Overflows 1 (cpu.a.toInt + b.toInt + cpu.flags.carry.toNat) := by
  have ha := cpu.a.isLt
  have hb := b.isLt
  have hc := cpu.flags.carry.toNat_le
  -- overflow is set if neither sign is that of the sum
  simp only [addA, BitVec.msb_and, BitVec.msb_xor, Bool.and_eq_true, bne_iff_ne, ne_eq]
  simp only [BitVec.msb_eq_decide, decide_eq_decide, BitVec.toNat_ofNat]
  simp only [Overflows, BitVec.toInt_eq_toNat_cond]
  split <;> split <;> omega

theorem negative_addA :
    (cpu.addA b).flags.negative = true ↔ 2 ^ (8 * 1 - 1) ≤ (cpu.addA b).a.toNat := by
  simp only [addA, BitVec.msb_eq_decide, decide_eq_true_eq]

end

end Cpu

/-! ### Long sums and differences -/

/-- Result and flags are right about the sum of two long numbers and a carry. -/
structure IsSum (as bs : List Byte) (carry : Bool) (rs : List Byte) (f : Flags) : Prop where
  length_eq : rs.length = as.length
  value_eq : value rs + f.carry.toNat * 256 ^ as.length = value as + value bs + carry.toNat
  overflow_iff :
    f.overflow = true ↔ Overflows as.length (signed as + signed bs + carry.toNat)
  negative_iff : f.negative = true ↔ 2 ^ (8 * as.length - 1) ≤ value rs

/-- Result and flags are right about the difference of two long numbers, from which one more is
taken if the carry is clear. -/
structure IsDifference (as bs : List Byte) (carry : Bool) (rs : List Byte) (f : Flags) : Prop where
  length_eq : rs.length = as.length
  value_eq : (value rs : Int) = (value as - value bs - (1 - carry.toNat)) % 256 ^ as.length
  carry_iff : f.carry = true ↔ value bs + (1 - carry.toNat) ≤ value as
  overflow_iff :
    f.overflow = true ↔ Overflows as.length (signed as - signed bs - (1 - carry.toNat))
  negative_iff : f.negative = true ↔ 2 ^ (8 * as.length - 1) ≤ value rs

section
variable {as bs rs : List Byte} {carry : Bool} {f : Flags}

theorem isSum_addA (b : Byte) (cpu : Cpu) :
    IsSum [cpu.a] [b] cpu.flags.carry [(cpu.addA b).a] (cpu.addA b).flags where
  length_eq := rfl
  value_eq := by
    have h := cpu.toNat_addA b
    simp only [value_singleton, List.length_singleton]
    omega
  overflow_iff := by
    simp only [signed_singleton, List.length_singleton]
    exact cpu.overflow_addA b
  negative_iff := by
    simp only [value_singleton, List.length_singleton]
    exact cpu.negative_addA b

/-- A sum of long numbers with a column put below it. -/
theorem IsSum.cons {b : Byte} {cpu : Cpu} (has : as ≠ []) (hbs : bs ≠ [])
    (h : IsSum as bs (cpu.addA b).flags.carry rs f) :
    IsSum (cpu.a :: as) (b :: bs) cpu.flags.carry ((cpu.addA b).a :: rs) f := by
  have hcolumn := cpu.toNat_addA b
  have hlength : 0 < as.length := List.length_pos_iff.mpr has
  constructor
  · rw [List.length_cons, List.length_cons, h.length_eq]
  · have hrest := h.value_eq
    rw [value_cons, value_cons, value_cons, List.length_cons, Nat.pow_succ', Nat.mul_left_comm]
    omega
  · -- the lowest byte of the result stands below the signed sum of the others
    have hsum : signed (cpu.a :: as) + signed (b :: bs) + cpu.flags.carry.toNat =
        (cpu.addA b).a.toNat + 256 * (signed as + signed bs + (cpu.addA b).flags.carry.toNat) := by
      rw [signed_cons _ _ has, signed_cons _ _ hbs]
      omega
    rw [hsum, List.length_cons, overflows_cons _ hlength]
    exact h.overflow_iff
  · have hlt := (cpu.addA b).a.isLt
    rw [h.negative_iff, value_cons, List.length_cons, two_pow_succ _ hlength]
    omega

/-- There is one sum. -/
theorem IsSum.unique {rs' : List Byte} {f' : Flags} (h : IsSum as bs carry rs f)
    (h' : IsSum as bs carry rs' f') :
    rs' = rs ∧ f'.carry = f.carry ∧ f'.overflow = f.overflow ∧ f'.negative = f.negative := by
  have hlt := value_lt rs
  have hlt' := value_lt rs'
  rw [h.length_eq] at hlt
  rw [h'.length_eq] at hlt'
  have hvalue : value rs' + f'.carry.toNat * 256 ^ as.length =
      value rs + f.carry.toNat * 256 ^ as.length := h'.value_eq.trans h.value_eq.symm
  have hcarry : f'.carry = f.carry := by
    cases hf : f.carry <;> cases hf' : f'.carry <;> simp [hf, hf'] at hvalue ⊢ <;> omega
  rw [hcarry, Nat.add_right_cancel_iff] at hvalue
  refine ⟨value_injective (h'.length_eq.trans h.length_eq.symm) hvalue, hcarry, ?_, ?_⟩
  · rw [Bool.eq_iff_iff, h.overflow_iff, h'.overflow_iff]
  · rw [Bool.eq_iff_iff, h.negative_iff, h'.negative_iff, hvalue]

/-- If a complement has been added, the carry tells whether the modulus has been added as well. -/
theorem IsSum.value_sub_eq (hlength : bs.length = as.length)
    (h : IsSum as (complement bs) carry rs f) :
    (value as - value bs - (1 - carry.toNat) : Int) =
      value rs + (256 ^ as.length : Nat) * (f.carry.toNat - 1) := by
  have hcomplement : value (complement bs) + value bs + 1 = 256 ^ as.length := by
    rw [← hlength]
    exact value_complement bs
  have hsum : (value rs + f.carry.toNat * (256 ^ as.length : Nat) : Int) =
      value as + value (complement bs) + carry.toNat := by exact_mod_cast h.value_eq
  have hmodulus : ((256 ^ as.length : Nat) : Int) = value (complement bs) + value bs + 1 := by
    exact_mod_cast hcomplement.symm
  linarith

/-- To add a complement is to subtract. -/
theorem IsSum.isDifference (has : as ≠ []) (hlength : bs.length = as.length)
    (h : IsSum as (complement bs) carry rs f) : IsDifference as bs carry rs f := by
  have hbs : bs ≠ [] := by
    rintro rfl
    exact has (List.length_eq_zero_iff.mp hlength.symm)
  have hrs : value rs < 256 ^ as.length := by
    rw [← h.length_eq]
    exact value_lt rs
  have hvalue := h.value_sub_eq hlength
  constructor
  · exact h.length_eq
  · rw [hvalue]
    have hmod : (256 ^ as.length : Int) = (256 ^ as.length : Nat) := by norm_cast
    rw [hmod, Int.add_mul_emod_self_left, Int.emod_eq_of_lt (Int.natCast_nonneg _)]
    exact_mod_cast hrs
  · have hcarry := carry.toNat_le
    cases hf : f.carry with
    | true =>
        rw [hf, Bool.toNat_true] at hvalue
        exact iff_of_true rfl (by omega)
    | false =>
        rw [hf, Bool.toNat_false] at hvalue
        exact iff_of_false Bool.false_ne_true (by omega)
  · have hsum : signed as + signed (complement bs) + carry.toNat =
        signed as - signed bs - (1 - carry.toNat) := by
      rw [signed_complement bs hbs]
      ring
    rw [← hsum]
    exact h.overflow_iff
  · exact h.negative_iff

end

namespace Cpu

/-! ### Column by column -/

/-- The processor is at an instruction with the given mnemonic, and this byte is its operand. -/
def TakesByte (cpu : Cpu) (m : FullMemory) (mnemonic : Mnemonic) (b : Byte) : Prop :=
  ∃ i, Instruction.decode (m.busRead cpu.pc) = some i ∧ i.mnemonic = mnemonic ∧
    (i.mode.operandAt cpu m.busRead).byte cpu.a m.busRead = b

/-- The columns of an addition or a subtraction are worked off from the lowest.  `Columns op c cols
rs c'` says that the processor started as `c`, took the bytes `cols` in pairs, one in the accumulator
and one as the operand of an instruction `op`, got the bytes `rs` in the accumulator and ended as
`c'`.  Before each column anything may happen that leaves the carry alone. -/
inductive Columns (op : Mnemonic) : Cpu → List (Byte × Byte) → List Byte → Cpu → Prop
  | nil (c : Cpu) : Columns op c [] [] c
  | cons {c cpu c' : Cpu} {m : FullMemory} {a b : Byte} {cols : List (Byte × Byte)}
      {rs : List Byte} (hcarry : cpu.flags.carry = c.flags.carry) (ha : cpu.a = a)
      (hb : cpu.TakesByte m op b) (rest : Columns op (step.run cpu m).cpu cols rs c') :
      Columns op c ((a, b) :: cols) ((step.run cpu m).cpu.a :: rs) c'

section
variable {op : Mnemonic} {addend : Byte → Byte} (hop : op.addend? = some addend)
include hop

theorem operation_of_addend : op.operation = .load fun b => addA (addend b) := by
  cases op with
  | adc =>
      cases hop
      rfl
  | sbc =>
      cases hop
      rfl
  | _ => cases hop

/-- An addition or a subtraction is completed, and what it does to accumulator and flags is to add. -/
theorem step_adds {cpu : Cpu} {m : FullMemory} {b : Byte} (h : cpu.TakesByte m op b) :
    (∃ n, (step.run cpu m).result = .ok (some n)) ∧
      (step.run cpu m).cpu.a = (cpu.addA (addend b)).a ∧
      (step.run cpu m).cpu.flags = (cpu.addA (addend b)).flags := by
  obtain ⟨i, hd, rfl, rfl⟩ := h
  obtain ⟨n, hresult, -, hcpu⟩ := step_load hd (operation_of_addend hop)
  refine ⟨⟨n, hresult⟩, ?_, ?_⟩
  · rw [hcpu]
    rfl
  · rw [hcpu]
    rfl

/-- Whatever the columns are, there are processors that work them off. -/
theorem exists_columns (c : Cpu) (cols : List (Byte × Byte)) :
    ∃ rs c', Columns op c cols rs c' := by
  induction cols generalizing c with
  | nil => exact ⟨[], c, .nil c⟩
  | cons col cols ih =>
      obtain ⟨a, b⟩ := col
      obtain ⟨opcode, hopcode⟩ : ∃ opcode,
          Instruction.decode opcode = some ⟨op, .immediate, true⟩ := by
        cases op with
        | adc => exact ⟨0x69, by decide⟩
        | sbc => exact ⟨0xE9, by decide⟩
        | _ => cases hop
      obtain ⟨m, hm₀, hm₁⟩ : ∃ m : FullMemory, m.busRead 0 = opcode ∧ m.busRead 1 = b := by
        refine ⟨.ofFn fun i => if i = 0 then opcode else b, ?_, ?_⟩
        · exact Memory.busRead_ofFn _ _
        · exact Memory.busRead_ofFn _ _
      obtain ⟨cpu, hcarry, ha, hpc⟩ :
          ∃ cpu : Cpu, cpu.flags.carry = c.flags.carry ∧ cpu.a = a ∧ cpu.pc = 0 :=
        ⟨{ c with a := a, pc := 0 }, rfl, rfl, rfl⟩
      have hb : cpu.TakesByte m op b := by
        refine ⟨⟨op, .immediate, true⟩, ?_, rfl, ?_⟩
        · rw [hpc, hm₀]
          exact hopcode
        · show m.busRead (cpu.pc + 1) = b
          rw [hpc]
          exact hm₁
      obtain ⟨rs, c', hrest⟩ := ih (step.run cpu m).cpu
      exact ⟨_, c', .cons hcarry ha hb hrest⟩

/-- **A sum of columns is the sum of the numbers.** -/
theorem Columns.isSum {c c' : Cpu} {cols : List (Byte × Byte)} {rs : List Byte}
    (h : Columns op c cols rs c') (hcols : cols ≠ []) :
    IsSum (cols.map Prod.fst) (cols.map fun col => addend col.2) c.flags.carry rs c'.flags := by
  induction h with
  | nil c => exact absurd rfl hcols
  | @cons c cpu c' m a b cols rs hcarry ha hb rest ih =>
      obtain ⟨-, hsum, hflags⟩ := step_adds hop hb
      subst ha
      rw [← hcarry, hsum]
      by_cases hnil : cols = []
      · -- the highest column
        subst hnil
        cases rest
        rw [hflags]
        exact isSum_addA (addend b) cpu
      · have hrest := ih hnil
        rw [hflags] at hrest
        have hmap : ∀ f : Byte × Byte → Byte, cols.map f ≠ [] :=
          fun f h => hnil (List.map_eq_nil_iff.mp h)
        exact hrest.cons (hmap _) (hmap _)

/-- Columns and carry tell the result; no other flag has a part in it. -/
theorem Columns.unique {c c' : Cpu} {cols : List (Byte × Byte)} {rs : List Byte}
    (h : Columns op c cols rs c') {d d' : Cpu} {rs' : List Byte} (h' : Columns op d cols rs' d')
    (hcols : cols ≠ []) (hcarry : d.flags.carry = c.flags.carry) :
    rs' = rs ∧ d'.flags.carry = c'.flags.carry ∧ d'.flags.overflow = c'.flags.overflow ∧
      d'.flags.negative = c'.flags.negative := by
  have hsum := h.isSum hop hcols
  have hsum' := h'.isSum hop hcols
  rw [hcarry] at hsum'
  exact hsum.unique hsum'

end

/-- **Addition and subtraction of numbers of any length.**  Work off any columns, at least one,
with either instruction: each instruction is completed, and result and flags depend on nothing but
the columns and the first carry.  With the one instruction the result is the sum, with the other the
difference, and the last flags are those of the whole numbers. -/
theorem long_arithmetic {cols : List (Byte × Byte)} (hcols : cols ≠ []) (c : Cpu) :
    let as := cols.map Prod.fst
    let bs := cols.map Prod.snd
    (∀ op ∈ [Mnemonic.adc, Mnemonic.sbc],
      (∀ cpu m b, TakesByte cpu m op b → ∃ n, (step.run cpu m).result = .ok (some n)) ∧
        (∃ rs c', Columns op c cols rs c') ∧
        ∀ d rs c' rs' d', Columns op c cols rs c' → Columns op d cols rs' d' →
          d.flags.carry = c.flags.carry →
            rs' = rs ∧ d'.flags.carry = c'.flags.carry ∧
              d'.flags.overflow = c'.flags.overflow ∧ d'.flags.negative = c'.flags.negative) ∧
      (∀ rs c', Columns .adc c cols rs c' → IsSum as bs c.flags.carry rs c'.flags) ∧
      (∀ rs c', Columns .sbc c cols rs c' → IsDifference as bs c.flags.carry rs c'.flags) := by
  intro as bs
  have has : as ≠ [] := fun h => hcols (List.map_eq_nil_iff.mp h)
  refine ⟨?_, ?_, ?_⟩
  · intro op hmem
    obtain ⟨addend, hop⟩ : ∃ addend, op.addend? = some addend := by
      simp only [List.mem_cons, List.not_mem_nil, or_false] at hmem
      rcases hmem with rfl | rfl
      · exact ⟨_, rfl⟩
      · exact ⟨_, rfl⟩
    refine ⟨?_, exists_columns hop c cols, ?_⟩
    · intro cpu m b hb
      exact (step_adds hop hb).1
    · intro d rs c' rs' d' h h' hcarry
      exact h.unique hop h' hcols hcarry
  · intro rs c' h
    exact h.isSum rfl hcols
  · intro rs c' h
    have hsum := h.isSum rfl hcols
    have hcomplement : cols.map (fun col => ~~~col.2) = complement bs :=
      (List.map_map ..).symm
    rw [hcomplement] at hsum
    exact hsum.isDifference has (by simp [as, bs])

/-- There are such columns: here the greatest signed number of two bytes is counted up, the decimal
flag set. -/
theorem long_arithmetic_carry :
    let c : Cpu := { flags := { decimal := true } }
    ∃ rs c', Columns .adc c [(0xFF, 0x01), (0x7F, 0x00)] rs c' ∧ value rs = 0x8000 ∧
      c'.flags.carry = false ∧ c'.flags.overflow = true ∧ c'.flags.negative = true := by
  intro c
  have hcols : ([(0xFF, 0x01), (0x7F, 0x00)] : List (Byte × Byte)) ≠ [] := List.cons_ne_nil _ _
  obtain ⟨hall, hsum, -⟩ := long_arithmetic hcols c
  obtain ⟨-, ⟨rs, c', h⟩, -⟩ := hall .adc (by decide)
  have hrs := hsum rs c' h
  have hlt := value_lt rs
  rw [hrs.length_eq] at hlt
  have hvalue : value rs + c'.flags.carry.toNat * 65536 = 0x8000 := hrs.value_eq
  have hcarry : c'.flags.carry = false := by
    cases hc : c'.flags.carry with
    | false => rfl
    | true =>
        rw [hc, Bool.toNat_true] at hvalue
        omega
  rw [hcarry] at hvalue
  refine ⟨rs, c', h, hvalue, hcarry, hrs.overflow_iff.mpr ?_, hrs.negative_iff.mpr ?_⟩
  · right
    decide
  · exact hvalue.ge

end Cpu

end Famicom
