import Mathlib.Data.Nat.Digits.Defs
import Famicom.Word

/-! # Numbers of several bytes

Programs keep numbers that are greater than a byte in several bytes, the lowest first.  Such a list
of bytes has a value (`LongNumber.value`) and, read as a two's complement, a signed value
(`LongNumber.signed`).  Both are told by the lowest byte and the value of the others; only of the
last byte the sign matters (`LongNumber.signed_cons`).  A number leaves the signed range of some
bytes together with the number that is made longer by a byte below it
(`LongNumber.overflows_cons`). -/

namespace Famicom.LongNumber

/-- The value of bytes, the lowest first. -/
def value (bs : List Byte) : Nat := Nat.ofDigits 256 (bs.map (·.toNat))

/-- The value of bytes as a two's complement, the lowest first. -/
def signed (bs : List Byte) : Int := Int.bmod (value bs) (256 ^ bs.length)

/-- The number has no two's complement of `n` bytes. -/
def Overflows (n : Nat) (z : Int) : Prop := z < -2 ^ (8 * n - 1) ∨ 2 ^ (8 * n - 1) - 1 < z

/-- The bytes with all bits turned. -/
def complement (bs : List Byte) : List Byte := bs.map (~~~·)

variable (b : Byte) (bs : List Byte)

/-! ### Values -/

@[simp] theorem value_nil : value [] = 0 := rfl

@[simp] theorem value_cons : value (b :: bs) = b.toNat + 256 * value bs := by
  simp only [value, List.map_cons, Nat.ofDigits_cons]

theorem value_singleton : value [b] = b.toNat := by
  rw [value_cons, value_nil, Nat.mul_zero, Nat.add_zero]

/-- One more byte above the others. -/
theorem value_concat : value (bs ++ [b]) = value bs + 256 ^ bs.length * b.toNat := by
  simp only [value, List.map_append, List.map_cons, List.map_nil, Nat.ofDigits_append,
    Nat.ofDigits_singleton, List.length_map]

theorem value_lt : value bs < 256 ^ bs.length := by
  induction bs with
  | nil => decide
  | cons b bs ih =>
      have := b.isLt
      rw [value_cons, List.length_cons, Nat.pow_succ']
      omega

/-- Lists of the same length with the same value are the same. -/
theorem value_injective {bs bs' : List Byte} (hlength : bs.length = bs'.length)
    (h : value bs = value bs') : bs = bs' := by
  induction bs generalizing bs' with
  | nil =>
      cases bs' with
      | nil => rfl
      | cons b' bs' => cases hlength
  | cons b bs ih =>
      cases bs' with
      | nil => cases hlength
      | cons b' bs' =>
          rw [value_cons, value_cons] at h
          have := b.isLt
          have := b'.isLt
          have hhead : b = b' := BitVec.eq_of_toNat_eq (by omega)
          have htail : bs = bs' := ih (Nat.succ.inj hlength) (by omega)
          rw [hhead, htail]

/-! ### Signs -/

theorem two_pow_pred (n : Nat) (h : 0 < n) : 2 * 2 ^ (8 * n - 1) = 256 ^ n := by
  have hn : 8 * n - 1 + 1 = 8 * n := by omega
  calc 2 * 2 ^ (8 * n - 1) = 2 ^ (8 * n - 1 + 1) := (Nat.pow_succ' ..).symm
    _ = (2 ^ 8) ^ n := by rw [hn, Nat.pow_mul]

theorem two_pow_succ (n : Nat) (h : 0 < n) : 2 ^ (8 * (n + 1) - 1) = 256 * 2 ^ (8 * n - 1) := by
  have hn : 8 * (n + 1) - 1 = 8 + (8 * n - 1) := by omega
  rw [hn, Nat.pow_add]

/-- The signed value of bytes is their value, from which the number of all values is taken away if
the highest bit is set. -/
theorem signed_eq (h : bs ≠ []) :
    signed bs = if value bs < 2 ^ (8 * bs.length - 1) then (value bs : Int)
      else value bs - (2 * 2 ^ (8 * bs.length - 1) : Nat) := by
  have hlength : 0 < bs.length := List.length_pos_iff.mpr h
  have hlt := value_lt bs
  have hpow := two_pow_pred bs.length hlength
  have hmod : (value bs : Int) % ((256 ^ bs.length : Nat) : Int) = value bs :=
    Int.emod_eq_of_lt (Int.natCast_nonneg _) (by exact_mod_cast hlt)
  have hhalf : ((2 * 2 ^ (8 * bs.length - 1) : Nat) + 1 : Int) / 2 =
      (2 ^ (8 * bs.length - 1) : Nat) := by omega
  rw [signed, Int.bmod_def, hmod, ← hpow, hhalf]
  simp only [Int.ofNat_lt]

theorem signed_singleton : signed [b] = b.toInt := by
  rw [signed, value_singleton, BitVec.toInt_eq_toNat_bmod]
  rfl

/-- The sign of a number stands in its highest byte. -/
theorem signed_cons (h : bs ≠ []) : signed (b :: bs) = b.toNat + 256 * signed bs := by
  have hlength : 0 < bs.length := List.length_pos_iff.mpr h
  have := b.isLt
  rw [signed_eq _ (List.cons_ne_nil b bs), signed_eq bs h, List.length_cons,
    two_pow_succ _ hlength, value_cons]
  have hlt : b.toNat + 256 * value bs < 256 * 2 ^ (8 * bs.length - 1) ↔
      value bs < 2 ^ (8 * bs.length - 1) := by omega
  by_cases hsmall : value bs < 2 ^ (8 * bs.length - 1)
  · rw [if_pos (hlt.mpr hsmall), if_pos hsmall]
    omega
  · rw [if_neg (mt hlt.mp hsmall), if_neg hsmall]
    omega

/-- A number with one more byte below it overflows just if it overflows itself. -/
theorem overflows_cons {n : Nat} (h : 0 < n) (z : Int) :
    Overflows (n + 1) (b.toNat + 256 * z) ↔ Overflows n z := by
  have := b.isLt
  have hpow : (2 ^ (8 * (n + 1) - 1) : Int) = 256 * 2 ^ (8 * n - 1) := by
    exact_mod_cast two_pow_succ n h
  simp only [Overflows, hpow]
  omega

/-! ### Complements -/

@[simp] theorem length_complement : (complement bs).length = bs.length := List.length_map _

theorem value_complement : value (complement bs) + value bs + 1 = 256 ^ bs.length := by
  induction bs with
  | nil => rfl
  | cons b bs ih =>
      have := b.isLt
      have hb : (~~~b).toNat = 255 - b.toNat := BitVec.toNat_not
      have hcons : complement (b :: bs) = ~~~b :: complement bs := rfl
      rw [hcons, value_cons, value_cons, List.length_cons, Nat.pow_succ', hb]
      omega

theorem signed_complement (h : bs ≠ []) : signed (complement bs) = -1 - signed bs := by
  have hcomplement : complement bs ≠ [] := by
    intro hnil
    exact h (List.map_eq_nil_iff.mp hnil)
  have hlength : 0 < bs.length := List.length_pos_iff.mpr h
  have hpow := two_pow_pred bs.length hlength
  have hvalue := value_complement bs
  rw [signed_eq _ hcomplement, signed_eq bs h, length_complement]
  have hlt : value (complement bs) < 2 ^ (8 * bs.length - 1) ↔
      ¬ value bs < 2 ^ (8 * bs.length - 1) := by omega
  by_cases hsmall : value bs < 2 ^ (8 * bs.length - 1)
  · rw [if_neg (by omega), if_pos hsmall]
    omega
  · rw [if_pos (by omega), if_neg hsmall]
    omega

end Famicom.LongNumber
