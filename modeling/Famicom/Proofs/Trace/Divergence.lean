import Mathlib.Data.List.Forall2
import Mathlib.Order.Bounds.Basic
import Famicom.Trace.Divergence

/-! # The first divergence of two traces

Two traces part after the longest beginning that they share.  `AgreeBelow actual expected n` says
that both have at least `n` lines and agree on them; the main result `first_divergence` says that
there is no divergence just for traces that agree throughout, and that otherwise its line is the
greatest such `n`, with what stands there in either trace. -/

namespace Famicom.Trace

namespace Divergence

/-- The traces have `n` lines and agree on them. -/
def AgreeBelow (actual expected : List Entry) (n : Nat) : Prop :=
  ∀ i < n, ∃ a e, actual[i]? = some a ∧ expected[i]? = some e ∧ a.Agrees e

/-- The same divergence, seen from the other trace. -/
def swap (d : Divergence) : Divergence := ⟨d.line, d.actual, d.expected⟩

variable {actual expected : List Entry} {a e : Entry} {n : Nat} {d : Divergence}

/-! ### Agreement on the first lines -/

theorem agreeBelow_zero : AgreeBelow actual expected 0 := fun _ h => absurd h (Nat.not_lt_zero _)

theorem agreeBelow_cons :
    AgreeBelow (a :: actual) (e :: expected) (n + 1) ↔
      a.Agrees e ∧ AgreeBelow actual expected n := by
  constructor
  · intro h
    constructor
    · obtain ⟨a', e', ha, he, hagree⟩ := h 0 n.succ_pos
      cases ha
      cases he
      exact hagree
    · intro i hi
      exact h (i + 1) (Nat.succ_lt_succ hi)
  · rintro ⟨hagree, h⟩ i hi
    cases i with
    | zero => exact ⟨a, e, rfl, rfl, hagree⟩
    | succ i => exact h i (Nat.lt_of_succ_lt_succ hi)

theorem not_agreeBelow_of_ended (h : actual = [] ∨ expected = []) :
    ¬ AgreeBelow actual expected (n + 1) := by
  intro hagree
  obtain ⟨a, e, ha, he, -⟩ := hagree 0 n.succ_pos
  rcases h with rfl | rfl
  · cases ha
  · cases he

/-- Traces that agree on some number of lines, but not on one more, agree on no greater number. -/
theorem isGreatest_agreeBelow (h : AgreeBelow actual expected n)
    (hnot : ¬ AgreeBelow actual expected (n + 1)) :
    IsGreatest {n | AgreeBelow actual expected n} n := by
  refine ⟨h, fun m hm => Nat.le_of_not_lt fun hlt => ?_⟩
  exact hnot fun i hi => hm i (Nat.lt_of_lt_of_le hi hlt)

/-- Traces that agree throughout agree on as many lines as there are. -/
theorem agreeBelow_length (h : List.Forall₂ Entry.Agrees actual expected) :
    AgreeBelow actual expected actual.length := by
  induction h with
  | nil => exact agreeBelow_zero
  | cons hagree _ ih => exact agreeBelow_cons.mpr ⟨hagree, ih⟩

/-! ### The divergence after some lines -/

theorem after_eq_none_iff (line : Nat) :
    after line actual expected = none ↔ List.Forall₂ Entry.Agrees actual expected := by
  fun_induction after line actual expected with
  | case1 => simp
  | case2 => simp
  | case3 => simp
  | case4 line a actual e expected hagree ih => rw [ih, List.forall₂_cons, and_iff_right hagree]
  | case5 line a actual e expected hagree => simp [hagree]

/-- The divergence is where the traces stop agreeing, and tells what stands there. -/
theorem exists_of_after {line : Nat} (h : after line actual expected = some d) :
    ∃ n, d.line = line + n ∧ IsGreatest {n | AgreeBelow actual expected n} n ∧
      d.expected = expected[n]? ∧ d.actual = actual[n]? ∧
      (d.expected ≠ none ∨ d.actual ≠ none) := by
  fun_induction after line actual expected with
  | case1 => cases h
  | case2 line e expected =>
      cases h
      exact ⟨0, rfl, isGreatest_agreeBelow agreeBelow_zero (not_agreeBelow_of_ended (.inl rfl)),
        rfl, rfl, .inl (Option.some_ne_none e)⟩
  | case3 line a actual =>
      cases h
      exact ⟨0, rfl, isGreatest_agreeBelow agreeBelow_zero (not_agreeBelow_of_ended (.inr rfl)),
        rfl, rfl, .inr (Option.some_ne_none a)⟩
  | case4 line a actual e expected hagree ih =>
      obtain ⟨n, hline, hgreatest, hexpected, hactual, hside⟩ := ih h
      refine ⟨n + 1, by omega, ?_, hexpected, hactual, hside⟩
      apply isGreatest_agreeBelow
      · exact agreeBelow_cons.mpr ⟨hagree, hgreatest.1⟩
      · intro hmore
        exact absurd (hgreatest.2 (agreeBelow_cons.mp hmore).2) n.not_succ_le_self
  | case5 line a actual e expected hagree =>
      cases h
      refine ⟨0, rfl, isGreatest_agreeBelow agreeBelow_zero ?_, rfl, rfl,
        .inl (Option.some_ne_none e)⟩
      exact fun hmore => hagree (agreeBelow_cons.mp hmore).1

theorem after_swap (line : Nat) :
    after line expected actual = (after line actual expected).map swap := by
  fun_induction after line actual expected with
  | case1 => rfl
  | case2 => rfl
  | case3 => rfl
  | case4 line a actual e expected hagree ih =>
      rw [after, if_pos hagree.symm, ih]
  | case5 line a actual e expected hagree =>
      rw [after, if_neg (mt Entry.Agrees.symm hagree)]
      rfl

/-! ### The divergence of two traces -/

/-- **The first divergence.**  Traces do not diverge just if they agree line by line.  Otherwise
their divergence is on the line after the longest beginning that they share, and it tells what
stands there in each of them, which is nothing in at most one.  It is the same divergence when the
traces are exchanged, but for its sides. -/
theorem first_divergence (actual expected : List Entry) :
    (between actual expected = none ↔ List.Forall₂ Entry.Agrees actual expected) ∧
    (∀ d, between actual expected = some d ↔
      IsGreatest {n | AgreeBelow actual expected n} d.line ∧
        d.expected = expected[d.line]? ∧ d.actual = actual[d.line]? ∧
        (d.expected ≠ none ∨ d.actual ≠ none)) ∧
    between expected actual = (between actual expected).map swap := by
  refine ⟨after_eq_none_iff 0, fun d => ⟨fun h => ?_, ?_⟩, after_swap 0⟩
  · obtain ⟨n, hline, hparts⟩ := exists_of_after h
    rw [Nat.zero_add] at hline
    rwa [hline]
  · rintro ⟨hgreatest, hexpected, hactual, hside⟩
    cases hbetween : between actual expected with
    | none =>
        -- Traces that agree throughout share all lines, and then both have ended.
        have hall := (after_eq_none_iff 0).mp hbetween
        have hle : actual.length ≤ d.line := hgreatest.2 (agreeBelow_length hall)
        rw [hexpected, hactual, List.getElem?_eq_none hle,
          List.getElem?_eq_none (hall.length_eq ▸ hle)] at hside
        simp at hside
    | some d' =>
        obtain ⟨n, hline, hgreatest', hexpected', hactual', -⟩ := exists_of_after hbetween
        have hn : d.line = n := hgreatest.unique hgreatest'
        have hd : d'.line = d.line := by omega
        rw [← hn] at hexpected' hactual'
        rw [Option.some.injEq, Divergence.mk.injEq]
        exact ⟨hd, hexpected'.trans hexpected.symm, hactual'.trans hactual.symm⟩

end Divergence

end Famicom.Trace
