import Famicom.Proofs.Text.Rows

/-! # Words and the blanks between them

A text consists of words with blanks between them, and maybe in front and behind (`Spaced`).  It
does so in exactly one way, and that is how it is cut into words (`words_eq_iff`). -/

namespace Famicom.Text

/-- The text consists of the words, in order, with at least one blank between each two of them. -/
inductive Spaced : List (List Char) → List Char → Prop where
  | nil : Spaced [] []
  | blank {c : Char} {ws : List (List Char)} {cs : List Char} (hc : isBlank c) (h : Spaced ws cs) :
    Spaced ws (c :: cs)
  /-- After a word the text ends, or a blank follows. -/
  | word {w cs : List Char} {ws : List (List Char)} (hw : IsWord w)
    (hend : ∀ c ∈ cs.head?, isBlank c) (h : Spaced ws cs) : Spaced (w :: ws) (w ++ cs)

variable {ws : List (List Char)} {cs : List Char}

theorem Spaced.words_eq (h : Spaced ws cs) : words cs = ws := by
  induction h with
  | nil => rfl
  | blank hc _ ih => rw [words_cons_blank hc, ih]
  | @word w cs ws hw hend _ ih =>
      cases cs with
      | nil => rw [List.append_nil, words_of_isWord hw, ← ih, words_nil]
      | cons c cs =>
          have hc : isBlank c := hend c rfl
          rw [words_append_blank hc, words_of_isWord hw, ← words_cons_blank hc, ih]
          rfl

theorem Spaced.isWord (h : Spaced ws cs) : ∀ w ∈ ws, IsWord w := by
  induction h with
  | nil => exact fun w hw => by cases hw
  | blank _ _ ih => exact ih
  | word hw _ _ ih => exact List.forall_mem_cons.mpr ⟨hw, ih⟩

/-- A text begins with a word, which may be empty, and what comes after it is spaced. -/
theorem exists_spaced_splitWord (cs : List Char) :
    ∃ rest, cs = (splitWord cs).1 ++ rest ∧ (∀ c ∈ (splitWord cs).1, isBlank c = false) ∧
      (∀ c ∈ rest.head?, isBlank c) ∧ Spaced (splitWord cs).2 rest ∧ Spaced (words cs) cs := by
  induction cs with
  | nil => exact ⟨[], rfl, fun c hc => (by cases hc), fun c hc => (by cases hc), .nil, .nil⟩
  | cons c cs ih =>
      obtain ⟨rest, heq, hword, hend, hrest, hcs⟩ := ih
      cases hc : isBlank c with
      | true =>
          rw [splitWord_cons_blank hc, words_cons_blank hc]
          refine ⟨c :: cs, rfl, fun d hd => (by cases hd), ?_, .blank hc hcs, .blank hc hcs⟩
          rintro d ⟨⟩
          exact hc
      | false =>
          have hsplit := splitWord_cons hc cs
          have hall : ∀ d ∈ c :: (splitWord cs).1, isBlank d = false :=
            List.forall_mem_cons.mpr ⟨hc, hword⟩
          have htext : c :: cs = (c :: (splitWord cs).1) ++ rest := congrArg (c :: ·) heq
          have hwords : words (c :: cs) = (c :: (splitWord cs).1) :: (splitWord cs).2 := by
            rw [words, hsplit]
            rfl
          rw [hsplit, hwords]
          refine ⟨rest, htext, hall, hend, hrest, ?_⟩
          rw [htext]
          exact .word ⟨List.cons_ne_nil _ _, hall⟩ hend hrest

/-- **The words of a text** are those of which it consists. -/
theorem words_eq_iff : words cs = ws ↔ Spaced ws cs := by
  constructor
  · rintro rfl
    obtain ⟨rest, -, -, -, -, h⟩ := exists_spaced_splitWord cs
    exact h
  · exact Spaced.words_eq

theorem isWord_of_mem_words {w : List Char} (h : w ∈ words cs) : IsWord w :=
  (words_eq_iff.mp rfl).isWord w h

end Famicom.Text
