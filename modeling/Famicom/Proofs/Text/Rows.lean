import Famicom.Text.Blank
import Famicom.Text.Lines

/-! # Rows of words

What counts of a text that is read line by line and word by word are its rows: the words of each
line that has any (`Text.rows`).  A line end of any kind separates rows (`Text.rows_append_end`), a
blank separates words (`Text.words_append_blank`), and where there are only blanks and line ends
there is no row (`Text.rows_of_blank`). -/

namespace Famicom.Text

/-! ### Words -/

variable {c : Char} {u v : List Char}

theorem consWord_append (w : List Char) (ws vs : List (List Char)) :
    consWord w (ws ++ vs) = consWord w ws ++ vs := by
  unfold consWord
  split <;> rfl

theorem splitWord_cons_blank (h : isBlank c) (u : List Char) :
    splitWord (c :: u) = ([], words u) := if_pos h

theorem splitWord_cons (h : isBlank c = false) (u : List Char) :
    splitWord (c :: u) = (c :: (splitWord u).1, (splitWord u).2) := by
  unfold splitWord
  rw [List.foldr_cons, h]
  rfl

/-- What comes after a blank does not touch the words before it. -/
theorem words_append_blank (h : isBlank c) (u v : List Char) :
    words (u ++ c :: v) = words u ++ words v := by
  have hsplit : splitWord (u ++ c :: v) = ((splitWord u).1, (splitWord u).2 ++ words v) := by
    induction u with
    | nil => exact splitWord_cons_blank h v
    | cons d u ih =>
        have hwords : words (u ++ c :: v) = words u ++ words v := by
          rw [words, ih, consWord_append]
          rfl
        cases hd : isBlank d with
        | true => rw [List.cons_append, splitWord_cons_blank hd, splitWord_cons_blank hd, hwords]
        | false => rw [List.cons_append, splitWord_cons hd, splitWord_cons hd, ih]
  rw [words, hsplit, consWord_append]
  rfl

theorem words_of_blank (h : u.all isBlank) : words u = [] := words_eq_nil_iff.mpr h

theorem words_append_of_blank (h : v.all isBlank) (u : List Char) : words (u ++ v) = words u := by
  cases v with
  | nil => rw [List.append_nil]
  | cons c v =>
      rw [List.all_cons, Bool.and_eq_true] at h
      rw [words_append_blank h.1, words_of_blank h.2, List.append_nil]

theorem words_append_of_blank_left (h : u.all isBlank) (v : List Char) :
    words (u ++ v) = words v := by
  induction u with
  | nil => rfl
  | cons c u ih =>
      rw [List.all_cons, Bool.and_eq_true] at h
      rw [List.cons_append, words_cons_blank h.1, ih h.2]

/-- A text that is one word: it is not empty, and it has no blank. -/
def IsWord (w : List Char) : Prop := w ≠ [] ∧ ∀ c ∈ w, isBlank c = false

theorem isBlank_of_all {cs : List Char} (h : cs.all (!isBlank ·) = true) (hc : c ∈ cs) :
    isBlank c = false := by
  have hnot := List.all_eq_true.mp h c hc
  rwa [Bool.not_eq_true'] at hnot

theorem words_of_isWord (h : IsWord u) : words u = [u] := by
  have hsplit : ∀ u : List Char, (∀ c ∈ u, isBlank c = false) → splitWord u = (u, []) := by
    intro u hu
    induction u with
    | nil => rfl
    | cons c u ih =>
        obtain ⟨hc, hu⟩ := List.forall_mem_cons.mp hu
        rw [splitWord_cons hc, ih hu]
  rw [words, hsplit u h.2, consWord, if_neg]
  rw [List.isEmpty_iff]
  exact h.1

/-- Words with a blank between each two of them are read again. -/
theorem words_intercalate (h : isBlank c) {ws : List (List Char)} (hw : ∀ w ∈ ws, IsWord w) :
    words ([c].intercalate ws) = ws := by
  induction ws with
  | nil => rfl
  | cons w ws ih =>
      obtain ⟨hword, hrest⟩ := List.forall_mem_cons.mp hw
      have hih := ih hrest
      cases ws with
      | nil => rw [List.intercalate_singleton, words_of_isWord hword]
      | cons w' ws =>
          rw [List.intercalate_cons_cons, List.append_assoc, List.singleton_append,
            words_append_blank h, words_of_isWord hword, hih]
          rfl

theorem mem_intercalate {sep : List Char} {ws : List (List Char)} (h : c ∈ sep.intercalate ws) :
    c ∈ sep ∨ ∃ w ∈ ws, c ∈ w := by
  induction ws with
  | nil => cases h
  | cons w ws ih =>
      cases ws with
      | nil =>
          rw [List.intercalate_singleton] at h
          exact Or.inr ⟨w, List.mem_singleton_self w, h⟩
      | cons w' ws =>
          rw [List.intercalate_cons_cons, List.append_assoc] at h
          rcases List.mem_append.mp h with hw | hrest
          · exact Or.inr ⟨w, List.mem_cons_self, hw⟩
          · rcases List.mem_append.mp hrest with hsep | hws
            · exact Or.inl hsep
            · exact (ih hws).imp_right fun ⟨v, hv, hc⟩ => ⟨v, List.mem_cons_of_mem _ hv, hc⟩

/-! ### Lines -/

/-- A text put in front of the first of some lines. -/
def inFront (u : List Char) : List (List Char) → List (List Char)
  | [] => [u]
  | line :: rest => (u ++ line) :: rest

theorem inFront_inFront (u v : List Char) (ls : List (List Char)) :
    inFront u (inFront v ls) = inFront (u ++ v) ls := by
  cases ls with
  | nil => rfl
  | cons line rest => rw [inFront, inFront, inFront, List.append_assoc]

theorem lines_cons_feed (cs : List Char) : lines ('\n' :: cs) = ['\n'] :: lines cs := rfl

theorem lines_cons (h : c ≠ '\n') (cs : List Char) : lines (c :: cs) = inFront [c] (lines cs) := by
  unfold lines
  rw [List.foldr_cons, if_neg h]
  generalize List.foldr _ [] cs = ls
  cases ls <;> rfl

theorem unifyNewlinesFrom_cons (h : c ≠ '\r') (cs : List Char) :
    unifyNewlinesFrom (c :: cs) = (c == '\n', c :: unifyNewlines cs) := if_neg h

theorem unifyNewlines_cons (h : c ≠ '\r') (cs : List Char) :
    unifyNewlines (c :: cs) = c :: unifyNewlines cs := by
  rw [unifyNewlines, unifyNewlinesFrom_cons h]

/-- A carriage return is a line end, unless it belongs to the line feed after it. -/
theorem unifyNewlines_cons_return (cs : List Char) :
    unifyNewlines ('\r' :: cs) = '\n' :: unifyNewlines cs ∨
      ∃ cs', cs = '\n' :: cs' ∧ unifyNewlines ('\r' :: cs) = unifyNewlines cs := by
  have hreturn : unifyNewlines ('\r' :: cs) =
      if (unifyNewlinesFrom cs).1 then unifyNewlines cs else '\n' :: unifyNewlines cs := rfl
  cases h : (unifyNewlinesFrom cs).1 with
  | false =>
      left
      rw [hreturn, h]
      rfl
  | true =>
      right
      rw [hreturn, if_pos h]
      cases cs with
      | nil => cases h
      | cons c cs =>
          by_cases hc : c = '\r'
          · subst hc
            cases h
          · rw [unifyNewlinesFrom_cons hc] at h
            obtain rfl : c = '\n' := beq_iff_eq.mp h
            exact ⟨cs, rfl, rfl⟩

/-! ### Rows -/

/-- The words of a line, if it has any. -/
def row (line : List Char) : List (List (List Char)) :=
  if words line = [] then [] else [words line]

/-- The rows of a text that has another in front of it. -/
def rowsAfter (u cs : List Char) : List (List (List Char)) :=
  (inFront u (lines (unifyNewlines cs))).flatMap row

/-- The rows of a text: the words of each line that has any. -/
def rows (cs : List Char) : List (List (List Char)) := rowsAfter [] cs

theorem row_of_blank (h : u.all isBlank) : row u = [] := if_pos (words_of_blank h)

theorem row_append_of_blank (h : v.all isBlank) (u : List Char) : row (u ++ v) = row u := by
  unfold row
  rw [words_append_of_blank h]

/-- The characters that end a line. -/
def IsEnd (c : Char) : Prop := c = '\n' ∨ c = '\r'

instance (c : Char) : Decidable (IsEnd c) := inferInstanceAs (Decidable (_ ∨ _))

theorem isBlank_of_isEnd (h : IsEnd c) : isBlank c := by
  rcases h with rfl | rfl <;> rfl

theorem rows_eq (cs : List Char) : rows cs = (lines (unifyNewlines cs)).flatMap row := by
  unfold rows rowsAfter
  cases lines (unifyNewlines cs) <;> rfl

theorem rowsAfter_cons (h : ¬ IsEnd c) (u cs : List Char) :
    rowsAfter u (c :: cs) = rowsAfter (u ++ [c]) cs := by
  have hfeed : c ≠ '\n' := fun hc => h (Or.inl hc)
  have hreturn : c ≠ '\r' := fun hc => h (Or.inr hc)
  unfold rowsAfter
  rw [unifyNewlines_cons hreturn, lines_cons hfeed, inFront_inFront]

theorem flatMap_row_feed (u cs : List Char) :
    (inFront u (lines ('\n' :: unifyNewlines cs))).flatMap row = row u ++ rows cs := by
  rw [lines_cons_feed, inFront, List.flatMap_cons, row_append_of_blank (by decide), rows_eq]

/-- A line end of any kind separates rows. -/
theorem rowsAfter_cons_end (h : IsEnd c) (u cs : List Char) :
    rowsAfter u (c :: cs) = row u ++ rows cs := by
  unfold rowsAfter
  rcases h with rfl | rfl
  · rw [unifyNewlines_cons (by decide), flatMap_row_feed]
  · rcases unifyNewlines_cons_return cs with hr | ⟨cs', rfl, hr⟩
    · rw [hr, flatMap_row_feed]
    · -- The line feed after it ends the same line, so there is an empty line less.
      have hempty : rows ('\n' :: cs') = rows cs' := by
        rw [rows_eq, unifyNewlines_cons (by decide), lines_cons_feed, List.flatMap_cons, rows_eq,
          row_of_blank (by decide), List.nil_append]
      rw [hr, unifyNewlines_cons (by decide), flatMap_row_feed, hempty]

theorem rowsAfter_append_end (h : IsEnd c) (w u v : List Char) :
    rowsAfter w (u ++ c :: v) = rowsAfter w u ++ rows v := by
  induction u generalizing w with
  | nil =>
      rw [List.nil_append, rowsAfter_cons_end h]
      have hnil : rowsAfter w [] = row w := List.append_nil _
      rw [hnil]
  | cons d u ih =>
      by_cases hd : IsEnd d
      · have hrows : rows (u ++ c :: v) = rows u ++ rows v := ih []
        rw [List.cons_append, rowsAfter_cons_end hd, rowsAfter_cons_end hd, hrows,
          List.append_assoc]
      · rw [List.cons_append, rowsAfter_cons hd, rowsAfter_cons hd, ih]

/-- What stands on both sides of a line end has its own rows. -/
theorem rows_append_end (h : IsEnd c) (u v : List Char) :
    rows (u ++ c :: v) = rows u ++ rows v :=
  rowsAfter_append_end h [] u v

/-- The ways to end a line. -/
inductive LineEnd where
  | feed
  | carriageReturn
  | returnAndFeed
deriving Repr, DecidableEq

/-- The characters of a line end. -/
def LineEnd.chars : LineEnd → List Char
  | feed => ['\n']
  | carriageReturn => ['\r']
  | returnAndFeed => ['\r', '\n']

theorem rows_append_lineEnd (nl : LineEnd) (u v : List Char) :
    rows (u ++ nl.chars ++ v) = rows u ++ rows v := by
  rw [List.append_assoc]
  cases nl with
  | feed => exact rows_append_end (Or.inl rfl) u v
  | carriageReturn => exact rows_append_end (Or.inr rfl) u v
  | returnAndFeed =>
      have hfeed : rows ('\n' :: v) = rows v := rows_append_end (Or.inl rfl) [] v
      rw [LineEnd.chars, List.cons_append, rows_append_end (Or.inr rfl), List.singleton_append,
        hfeed]

theorem rows_intercalate (nl : LineEnd) (ls : List (List Char)) :
    rows (nl.chars.intercalate ls) = ls.flatMap rows := by
  induction ls with
  | nil => rfl
  | cons l ls ih =>
      cases ls with
      | nil => rw [List.intercalate_singleton, List.flatMap_singleton]
      | cons l' ls =>
          rw [List.intercalate_cons_cons, rows_append_lineEnd, ih]
          rfl

theorem rows_of_line (h : ∀ c ∈ u, ¬ IsEnd c) : rows u = row u := by
  have hafter : ∀ w, rowsAfter w u = row (w ++ u) := by
    induction u with
    | nil => intro w; rw [List.append_nil]; exact List.append_nil _
    | cons c u ih =>
        intro w
        obtain ⟨hc, hu⟩ := List.forall_mem_cons.mp h
        rw [rowsAfter_cons hc, ih hu, List.append_assoc]
        rfl
  exact hafter []

/-- Lines of blanks have no rows, however many they are. -/
theorem rows_of_blank (h : u.all isBlank) : rows u = [] := by
  have hafter : ∀ w, rowsAfter w u = row w := by
    induction u with
    | nil => exact fun w => List.append_nil _
    | cons c u ih =>
        intro w
        rw [List.all_cons, Bool.and_eq_true] at h
        by_cases hc : IsEnd c
        · have hrows : rows u = [] := (ih h.2 []).trans (row_of_blank rfl)
          rw [rowsAfter_cons_end hc, hrows, List.append_nil]
        · have hblank : List.all [c] isBlank = true := by rw [List.all_cons, h.1]; rfl
          rw [rowsAfter_cons hc, ih h.2, row_append_of_blank hblank]
  rw [rows, hafter, row_of_blank rfl]

end Famicom.Text
