import Mathlib.Algebra.Group.Nat.Defs
import Mathlib.Data.Nat.Log
import Famicom.Text.Numeral

/-! # Numerals are read as they were written

A numeral is written in a small alphabet: a minus sign in front, then digits.  None of the freedoms
that reading allows is used by writing, so what is read is the number that was written: in base
sixteen always (`Numeral.read_padded_sixteen`), in base ten unless it has too many digits
(`Numeral.read_padded_ten`).

What is read at all is bounded by the text: two characters hold no more than a byte, or a sign and a
digit (`Numeral.read_of_length_two`), and base ten has a greatest number of digits
(`Numeral.read_ten_lt`). -/

namespace Famicom.Numeral

variable {base : Base} {n : Nat}

/-! ### The alphabet -/

/-- The digits that are written. -/
def digitChars : List Char :=
  ['0', '1', '2', '3', '4', '5', '6', '7', '8', '9', 'A', 'B', 'C', 'D', 'E', 'F']

theorem digitChar_mem {d : Nat} (h : d < base.toNat) : digitChar d ∈ digitChars := by
  have hall : ∀ d < 16, digitChar d ∈ digitChars := by decide
  apply hall
  cases base with
  | ten => exact Nat.lt_of_lt_of_le h (by decide)
  | sixteen => exact h

theorem digitValue?_digitChar {d : Nat} (h : d < base.toNat) :
    digitValue? base (digitChar d) = some d := by
  cases base <;> (revert d; decide)

theorem digitChars_ne_underscore {c : Char} (h : c ∈ digitChars) : c ≠ '_' := by
  rintro rfl
  revert h
  decide

theorem mem_go (written : List Char) (h : ∀ c ∈ written, c ∈ digitChars) :
    ∀ c ∈ digits.go base n written, c ∈ digitChars := by
  induction n, written using digits.go.induct base with
  | case1 n written hn =>
      rw [digits.go, if_pos hn]
      exact List.forall_mem_cons.mpr ⟨digitChar_mem hn, h⟩
  | case2 n written hn ih =>
      rw [digits.go, if_neg hn]
      have hd : n % base.toNat < base.toNat := Nat.mod_lt _ (Nat.lt_of_succ_lt base.one_lt_toNat)
      exact ih (List.forall_mem_cons.mpr ⟨digitChar_mem hd, h⟩)

theorem mem_zeros_digits {k : Nat} :
    ∀ c ∈ List.replicate k '0' ++ digits base n, c ∈ digitChars := by
  intro c hc
  rcases List.mem_append.mp hc with h | h
  · rw [List.eq_of_mem_replicate h]
    decide
  · exact mem_go [] (fun c hc => by cases hc) c h

/-- How a number is written: a sign, zeros if it is to be wider, and its digits. -/
theorem padded_eq (base : Base) (width : Nat) (n : Int) :
    ∃ k ≤ width, padded base width n =
      sign n ++ (List.replicate k '0' ++ digits base n.natAbs) := by
  refine ⟨width - (sign n).length - (digits base n.natAbs).length, by omega, ?_⟩
  unfold padded
  rw [List.append_assoc]

theorem mem_padded {width : Nat} {n : Int} {c : Char} (h : c ∈ padded base width n) :
    c ∈ '-' :: digitChars := by
  obtain ⟨k, -, hk⟩ := padded_eq base width n
  rw [hk] at h
  rcases List.mem_append.mp h with hs | hd
  · unfold sign at hs
    split at hs
    · exact List.mem_cons.mpr (Or.inl (List.mem_singleton.mp hs))
    · cases hs
  · exact List.mem_cons_of_mem _ (mem_zeros_digits c hd)

/-! ### The number of digits -/

theorem length_go (written : List Char) :
    (digits.go base n written).length = Nat.log base.toNat n + 1 + written.length := by
  induction n, written using digits.go.induct base with
  | case1 n written hn =>
      rw [digits.go, if_pos hn, Nat.log_of_lt hn, List.length_cons]
      omega
  | case2 n written hn ih =>
      have hlog := Nat.log_of_one_lt_of_le base.one_lt_toNat (Nat.le_of_not_lt hn)
      rw [digits.go, if_neg hn, ih, hlog, List.length_cons]
      omega

theorem length_digits : (digits base n).length = Nat.log base.toNat n + 1 := length_go []

theorem padded_ne_nil {width : Nat} {n : Int} : padded base width n ≠ [] := by
  obtain ⟨k, -, htext⟩ := padded_eq base width n
  have hlength := congrArg List.length htext
  rw [List.length_append, List.length_append, length_digits] at hlength
  apply List.ne_nil_of_length_pos
  omega

theorem log_lt_of_lt_pow {k : Nat} (hk : k ≠ 0) (h : n < base.toNat ^ k) :
    Nat.log base.toNat n < k := by
  by_cases h0 : n = 0
  · rw [h0, Nat.log_zero_right]
    exact Nat.pos_of_ne_zero hk
  · exact Nat.log_lt_of_lt_pow h0 h

/-- A number that needs no more digits fills its column. -/
theorem length_padded {width : Nat} (hw : width ≠ 0) (h : n < base.toNat ^ width) :
    (padded base width n).length = width := by
  have hlog := log_lt_of_lt_pow hw h
  have hsign : sign (n : Int) = [] := if_neg (by omega)
  unfold padded
  rw [hsign, Int.natAbs_natCast]
  simp only [List.nil_append, List.length_append, List.length_replicate, List.length_nil,
    length_digits]
  omega

/-! ### Reading -/

theorem run?_digitChar {d : Nat} (h : d < base.toNat) (afterDigit : Bool) (value count : Nat)
    (cs : List Char) :
    run? base afterDigit value count (digitChar d :: cs) =
      run? base true (value * base.toNat + d) (count + 1) cs := by
  rw [run?, if_neg (digitChars_ne_underscore (digitChar_mem h)), digitValue?_digitChar h]

/-- The digits of a number are read one by one, and make up the number. -/
theorem run?_go (written : List Char) (afterDigit : Bool) (value count : Nat) :
    run? base afterDigit value count (digits.go base n written) =
      run? base true (value * base.toNat ^ (Nat.log base.toNat n + 1) + n)
        (count + (Nat.log base.toNat n + 1)) written := by
  induction n, written using digits.go.induct base with
  | case1 n written hn =>
      rw [digits.go, if_pos hn, run?_digitChar hn, Nat.log_of_lt hn, Nat.zero_add, Nat.pow_one]
  | case2 n written hn ih =>
      have hlog := Nat.log_of_one_lt_of_le base.one_lt_toNat (Nat.le_of_not_lt hn)
      have hd : n % base.toNat < base.toNat := Nat.mod_lt _ (Nat.lt_of_succ_lt base.one_lt_toNat)
      have hvalue : (value * base.toNat ^ (Nat.log base.toNat (n / base.toNat) + 1) +
          n / base.toNat) * base.toNat + n % base.toNat =
            value * base.toNat ^ (Nat.log base.toNat (n / base.toNat) + 1 + 1) + n := by
        rw [Nat.add_mul, Nat.add_assoc, Nat.div_add_mod', Nat.mul_assoc, ← Nat.pow_succ]
      rw [digits.go, if_neg hn, ih, run?_digitChar hd, hlog, hvalue]
      rfl

theorem run?_zeros_digits (k : Nat) (afterDigit : Bool) (count : Nat) :
    run? base afterDigit 0 count (List.replicate k '0' ++ digits base n) =
      some ⟨n, count + k + (Nat.log base.toNat n + 1), []⟩ := by
  induction k generalizing afterDigit count with
  | zero =>
      rw [List.replicate_zero, List.nil_append, digits, run?_go, Nat.zero_mul, Nat.zero_add]
      rfl
  | succ k ih =>
      have hzero := run?_digitChar (d := 0) (Nat.lt_of_succ_lt base.one_lt_toNat) afterDigit 0 count
        (List.replicate k '0' ++ digits base n)
      rw [Nat.zero_mul, ih] at hzero
      rw [List.replicate_succ, List.cons_append]
      refine hzero.trans ?_
      rw [show count + 1 + k = count + (k + 1) by omega]

/-- Without its letter there is no mark of base sixteen. -/
theorem dropMark_of_notMem {cs : List Char} (hx : 'x' ∉ cs) (hX : 'X' ∉ cs) :
    dropMark base cs = cs := by
  unfold dropMark
  split
  · rename_i zero x cs
    have hno : ¬ (x = 'x' ∨ x = 'X') := by
      rintro (rfl | rfl)
      · exact hx (by simp)
      · exact hX (by simp)
    rw [if_neg fun hmark => hno hmark.2.2]
  · rfl

/-- Digits never look like the mark of base sixteen. -/
theorem dropMark_of_digits {cs : List Char} (h : ∀ c ∈ cs, c ∈ digitChars) :
    dropMark base cs = cs :=
  dropMark_of_notMem (fun hc => absurd (h _ hc) (by decide)) fun hc => absurd (h _ hc) (by decide)

theorem readUnsigned_zeros_digits {k : Nat}
    (h : base = .ten → k + (Nat.log base.toNat n + 1) ≤ maxDecimalDigits) :
    readUnsigned base (List.replicate k '0' ++ digits base n) = .ok n := by
  have hshort : ¬ (base = .ten ∧ maxDecimalDigits < k + (Nat.log base.toNat n + 1)) := by
    rintro ⟨hb, hlong⟩
    exact Nat.not_lt_of_le (h hb) hlong
  unfold readUnsigned
  rw [dropMark_of_digits mem_zeros_digits, run?_zeros_digits, Nat.zero_add]
  dsimp only
  rw [if_neg hshort, if_pos rfl]

theorem read_of_notMem {cs : List Char} (hminus : '-' ∉ cs) (hplus : '+' ∉ cs) :
    read base cs = (readUnsigned base cs).map fun n => (n : Int) := by
  unfold read
  split
  · exact absurd (by simp) hminus
  · exact absurd (by simp) hplus
  · rfl

theorem read_of_digits {cs : List Char} (h : ∀ c ∈ cs, c ∈ digitChars) :
    read base cs = (readUnsigned base cs).map fun n => (n : Int) :=
  read_of_notMem (fun hc => absurd (h _ hc) (by decide)) fun hc => absurd (h _ hc) (by decide)

theorem read_minus (cs : List Char) :
    read base ('-' :: cs) = (readUnsigned base cs).map fun n => -(n : Int) := rfl

theorem read_padded {width : Nat} {n : Int}
    (h : base = .ten → width + (Nat.log base.toNat n.natAbs + 1) ≤ maxDecimalDigits) :
    read base (padded base width n) = .ok n := by
  obtain ⟨k, hk, htext⟩ := padded_eq base width n
  have hread : readUnsigned base (List.replicate k '0' ++ digits base n.natAbs) =
      .ok n.natAbs := by
    refine readUnsigned_zeros_digits fun hb => ?_
    have := h hb
    omega
  rw [htext]
  unfold sign
  split
  · rw [List.singleton_append, read_minus, hread]
    show Except.ok (-(n.natAbs : Int)) = _
    rw [Int.ofNat_natAbs_of_nonpos (by omega), Int.neg_neg]
  · rw [List.nil_append, read_of_digits mem_zeros_digits, hread]
    show Except.ok (n.natAbs : Int) = _
    rw [Int.natAbs_of_nonneg (by omega)]

/-- **Base sixteen**: every integer is read as it was written, in a column of any width. -/
theorem read_padded_sixteen (width : Nat) (n : Int) :
    read .sixteen (padded .sixteen width n) = .ok n :=
  read_padded fun h => by cases h

/-- **Base ten**: an integer that does not have too many digits is read as it was written. -/
theorem read_padded_ten {n : Int} (h : n.natAbs < 10 ^ maxDecimalDigits) :
    read .ten (padded .ten 0 n) = .ok n := by
  refine read_padded fun _ => ?_
  have hten : Base.ten.toNat = 10 := rfl
  have hlog : Nat.log Base.ten.toNat n.natAbs < maxDecimalDigits := by
    apply log_lt_of_lt_pow (by decide)
    rw [hten]
    exact h
  omega

/-- An integer that has too many digits for base ten is refused. -/
theorem read_ten_of_long {n : Nat} (h : maxDecimalDigits < (digits .ten n).length) :
    read .ten (padded .ten 0 n) = .error (.tooLong (digits .ten n).length) := by
  obtain ⟨k, hk, htext⟩ := padded_eq .ten 0 (n : Int)
  obtain rfl := Nat.le_zero.mp hk
  have hsign : sign (n : Int) = [] := if_neg (by omega)
  have hunsigned : readUnsigned .ten (List.replicate 0 '0' ++ digits .ten n) =
      .error (.tooLong (digits .ten n).length) := by
    unfold readUnsigned
    rw [dropMark_of_digits mem_zeros_digits, run?_zeros_digits, Nat.zero_add, ← length_digits]
    exact if_pos ⟨rfl, by omega⟩
  rw [htext, hsign, List.nil_append, Int.natAbs_natCast, read_of_digits mem_zeros_digits,
    hunsigned]
  rfl

/-! ### What is read -/

/-- A run of digits has a value of no more digits, and is no longer than the text. -/
theorem run?_bounds {afterDigit : Bool} {value count : Nat} {cs : List Char} {run : Run}
    (h : run? base afterDigit value count cs = some run) (hv : value < base.toNat ^ count) :
    run.value < base.toNat ^ run.count ∧ run.count ≤ count + cs.length := by
  induction cs generalizing afterDigit value count with
  | nil =>
      rw [run?] at h
      split at h
      · cases h
        exact ⟨hv, Nat.le_refl _⟩
      · cases h
  | cons c cs ih =>
      rw [run?] at h
      rw [List.length_cons]
      split at h
      · split at h
        · obtain ⟨hvalue, hcount⟩ := ih h hv
          exact ⟨hvalue, by omega⟩
        · cases h
      · split at h
        · rename_i d hd
          have hlt : d < base.toNat := of_decide_eq_true (Option.filter_eq_some_iff.mp hd).2
          have hnext : value * base.toNat + d < base.toNat ^ (count + 1) := by
            have := Nat.mul_le_mul_right base.toNat hv
            rw [Nat.succ_mul] at this
            rw [Nat.pow_succ]
            omega
          obtain ⟨hvalue, hcount⟩ := ih h hnext
          exact ⟨hvalue, by omega⟩
        · split at h
          · cases h
            exact ⟨hv, Nat.le_add_right _ _⟩
          · cases h

theorem length_dropMark_le (cs : List Char) : (dropMark base cs).length ≤ cs.length := by
  unfold dropMark
  split
  · split
    · split <;> simp only [List.length_cons] <;> omega
    · exact Nat.le_refl _
  · exact Nat.le_refl _

/-- What is read has no more digits than the text has characters, and in base ten no more than are
allowed. -/
theorem readUnsigned_lt {cs : List Char} (h : readUnsigned base cs = .ok n) :
    n < base.toNat ^ cs.length ∧ (base = .ten → n < base.toNat ^ maxDecimalDigits) := by
  unfold readUnsigned at h
  split at h
  · cases h
  · rename_i run hrun
    split at h
    · cases h
    · rename_i hshort
      split at h
      · cases h
        obtain ⟨hvalue, hcount⟩ := run?_bounds hrun (Nat.one_pos)
        have hlength : (dropMark base cs).length ≤ cs.length := length_dropMark_le cs
        have hpow {k : Nat} (hk : run.count ≤ k) : run.value < base.toNat ^ k :=
          Nat.lt_of_lt_of_le hvalue
            (Nat.pow_le_pow_right (Nat.lt_of_succ_lt base.one_lt_toNat) hk)
        refine ⟨hpow (by omega), fun hten => hpow ?_⟩
        exact Nat.le_of_not_lt fun hlong => hshort ⟨hten, hlong⟩
      · cases h

theorem exists_of_signed {cs : List Char} {f : Int → Int} {n : Int}
    (h : ((readUnsigned base cs).map f : Except Fault Int) = .ok n) :
    ∃ k : Nat, readUnsigned base cs = .ok k ∧ n = f k := by
  cases hr : readUnsigned base cs with
  | error fault =>
      rw [hr] at h
      cases h
  | ok k =>
      rw [hr] at h
      cases h
      exact ⟨k, rfl, rfl⟩

/-- An integer is read behind a sign, or without one. -/
theorem exists_of_read {cs : List Char} {n : Int} (h : read base cs = .ok n) :
    (∃ digits k, cs = '-' :: digits ∧ readUnsigned base digits = .ok k ∧ n = -(k : Int)) ∨
      ∃ digits k, digits.length ≤ cs.length ∧ readUnsigned base digits = .ok k ∧ n = (k : Int) := by
  unfold read at h
  split at h
  · obtain ⟨k, hk, rfl⟩ := exists_of_signed h
    exact Or.inl ⟨_, k, rfl, hk, rfl⟩
  · obtain ⟨k, hk, rfl⟩ := exists_of_signed h
    exact Or.inr ⟨_, k, Nat.le_succ _, hk, rfl⟩
  · obtain ⟨k, hk, rfl⟩ := exists_of_signed h
    exact Or.inr ⟨_, k, Nat.le_refl _, hk, rfl⟩

/-- In two characters there is room for a byte, or for a sign and one digit. -/
theorem read_of_length_two {cs : List Char} {n : Int} (h : read .sixteen cs = .ok n)
    (hl : cs.length = 2) : -16 < n ∧ n < 256 := by
  have hsixteen : Base.sixteen.toNat = 16 := rfl
  rcases exists_of_read h with ⟨digits, k, rfl, hr, rfl⟩ | ⟨digits, k, hle, hr, rfl⟩
  · have hk := (readUnsigned_lt hr).1
    rw [Nat.succ.inj hl, hsixteen] at hk
    omega
  · have hk := (readUnsigned_lt hr).1
    have hpow := Nat.pow_le_pow_right (n := 16) (by decide) (hl ▸ hle)
    rw [hsixteen] at hk
    omega

theorem read_ten_lt {cs : List Char} {n : Int} (h : read .ten cs = .ok n) :
    n.natAbs < 10 ^ maxDecimalDigits := by
  have hten : Base.ten.toNat = 10 := rfl
  rcases exists_of_read h with ⟨digits, k, -, hr, rfl⟩ | ⟨digits, k, -, hr, rfl⟩
  · have hk := (readUnsigned_lt hr).2 rfl
    rw [hten] at hk
    rwa [Int.natAbs_neg, Int.natAbs_natCast]
  · have hk := (readUnsigned_lt hr).2 rfl
    rw [hten] at hk
    rwa [Int.natAbs_natCast]

end Famicom.Numeral
