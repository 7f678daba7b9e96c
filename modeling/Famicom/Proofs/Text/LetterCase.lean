import Mathlib.Data.List.Forall2
import Famicom.Proofs.Text.Numeral

/-! # Numerals in either letter case

The digits of base sixteen that are letters are written as capitals, but logs have them small as
well.  A text is in either case of another if each of its characters is that of the other or its
small letter (`EitherCase`); a numeral is read alike from all of them (`EitherCase.read_padded`). -/

namespace Famicom.Numeral

/-- The same text, except that capitals may be small. -/
def EitherCase (cs ds : List Char) : Prop := List.Forall₂ (fun c d => c = d ∨ c = d.toLower) cs ds

instance (cs ds : List Char) : Decidable (EitherCase cs ds) :=
  inferInstanceAs (Decidable (List.Forall₂ _ _ _))

/-- The digits of base sixteen in both cases. -/
def hexChars : List Char := digitChars ++ ['a', 'b', 'c', 'd', 'e', 'f']

variable {c d : Char} {cs ds : List Char}

theorem mem_hexChars_of_eitherCase (hd : d ∈ digitChars) (hc : c = d ∨ c = d.toLower) :
    c ∈ hexChars := by
  have hall : digitChars.all fun d => d ∈ hexChars ∧ d.toLower ∈ hexChars := by decide
  obtain ⟨hcapital, hsmall⟩ := of_decide_eq_true (List.all_eq_true.mp hall d hd)
  rcases hc with rfl | rfl
  · exact hcapital
  · exact hsmall

theorem digitValue?_of_eitherCase (hd : d ∈ digitChars) (hc : c = d ∨ c = d.toLower) :
    ∃ v, digitValue? .sixteen c = some v ∧ digitValue? .sixteen d = some v := by
  have hall : digitChars.all fun d => (digitValue? .sixteen d).isSome ∧
      digitValue? .sixteen d.toLower = digitValue? .sixteen d := by decide
  obtain ⟨hsome, hlower⟩ := of_decide_eq_true (List.all_eq_true.mp hall d hd)
  obtain ⟨v, hv⟩ := Option.isSome_iff_exists.mp hsome
  rcases hc with rfl | rfl
  · exact ⟨v, hv, hv⟩
  · exact ⟨v, hlower.trans hv, hv⟩

namespace EitherCase

theorem length_eq (h : EitherCase cs ds) : cs.length = ds.length := List.Forall₂.length_eq h

theorem mem_hexChars (h : EitherCase cs ds) (hd : ∀ d ∈ ds, d ∈ digitChars) :
    ∀ c ∈ cs, c ∈ hexChars := by
  induction h with
  | nil => exact fun c hc => by cases hc
  | cons hc _ ih =>
      obtain ⟨hd, hds⟩ := List.forall_mem_cons.mp hd
      exact List.forall_mem_cons.mpr ⟨mem_hexChars_of_eitherCase hd hc, ih hds⟩

/-- Digits count alike in both cases. -/
theorem run?_eq (h : EitherCase cs ds) (hd : ∀ d ∈ ds, d ∈ digitChars) (afterDigit : Bool)
    (value count : Nat) :
    run? .sixteen afterDigit value count cs = run? .sixteen afterDigit value count ds := by
  induction h generalizing afterDigit value count with
  | nil => rfl
  | @cons c d cs ds hc _ ih =>
      obtain ⟨hd, hds⟩ := List.forall_mem_cons.mp hd
      obtain ⟨v, hvc, hvd⟩ := digitValue?_of_eitherCase hd hc
      have hcu : c ≠ '_' := by
        rintro rfl
        exact absurd (mem_hexChars_of_eitherCase hd hc) (by decide)
      rw [run?, run?, if_neg hcu, if_neg (digitChars_ne_underscore hd), hvc, hvd]
      exact ih hds ..

theorem padded_digits (width n : Nat) : ∀ d ∈ padded .sixteen width n, d ∈ digitChars := by
  obtain ⟨k, -, htext⟩ := padded_eq .sixteen width n
  have hsign : sign (n : Int) = [] := if_neg (by omega)
  rw [htext, hsign]
  exact mem_zeros_digits

theorem mem_of_padded {width n : Nat} (h : EitherCase cs (padded .sixteen width n)) :
    ∀ c ∈ cs, c ∈ hexChars :=
  h.mem_hexChars (padded_digits width n)

/-- **A numeral of base sixteen is read alike in both cases.** -/
theorem read_padded {width n : Nat} (h : EitherCase cs (padded .sixteen width n)) :
    read .sixteen cs = .ok n := by
  have hdigits := padded_digits width n
  have hnot {c : Char} (hc : c ∉ hexChars) : c ∉ cs := fun hmem => hc (h.mem_of_padded c hmem)
  have hnotd {c : Char} (hc : c ∉ digitChars) : c ∉ padded .sixteen width n :=
    fun hmem => hc (hdigits c hmem)
  have hunsigned : readUnsigned .sixteen cs = readUnsigned .sixteen (padded .sixteen width n) := by
    unfold readUnsigned
    rw [dropMark_of_notMem (hnot (by decide)) (hnot (by decide)),
      dropMark_of_notMem (hnotd (by decide)) (hnotd (by decide)), h.run?_eq hdigits]
  rw [read_of_notMem (hnot (by decide)) (hnot (by decide)), hunsigned,
    ← read_of_notMem (hnotd (by decide)) (hnotd (by decide)), read_padded_sixteen]

end EitherCase

end Famicom.Numeral
