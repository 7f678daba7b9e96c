/-! # Lines of a text

Texts come with the line ends of different systems: a line feed, a carriage return, or both.
`unifyNewlines` turns each of these into one line feed, and `lines` then cuts the text after each
line feed, which stays with its line.  Nothing is lost by the cut: the lines concatenate to the
text (`flatten_lines`). -/

namespace Famicom.Text

/-- Each line end as one line feed.  The first part of the result tells whether the text at hand
begins with a line feed, to which a carriage return before it belongs. -/
def unifyNewlinesFrom (cs : List Char) : Bool × List Char :=
  cs.foldr
    (fun c acc =>
      if c = '\r' then (false, if acc.1 then acc.2 else '\n' :: acc.2)
      else (c == '\n', c :: acc.2))
    (false, [])

/-- The text with each line end written as one line feed. -/
def unifyNewlines (cs : List Char) : List Char :=
  (unifyNewlinesFrom cs).2

/-- The text cut after each line feed. -/
def lines (cs : List Char) : List (List Char) :=
  cs.foldr
    (fun c acc =>
      if c = '\n' then [c] :: acc
      else
        match acc with
        | [] => [[c]]
        | line :: rest => (c :: line) :: rest)
    []

theorem flatten_lines (cs : List Char) : (lines cs).flatten = cs := by
  induction cs with
  | nil => rfl
  | cons c cs ih =>
    simp only [lines, List.foldr_cons] at ih ⊢
    split
    · simp [ih]
    · split <;> simp_all

theorem unifyNewlines_of_no_return {cs : List Char} (h : '\r' ∉ cs) : unifyNewlines cs = cs := by
  induction cs with
  | nil => rfl
  | cons c cs ih =>
    rw [List.mem_cons, not_or] at h
    have hc : c ≠ '\r' := fun hc => h.1 hc.symm
    have := ih h.2
    simp only [unifyNewlines, unifyNewlinesFrom, List.foldr_cons] at this ⊢
    simp [hc, this]

end Famicom.Text
