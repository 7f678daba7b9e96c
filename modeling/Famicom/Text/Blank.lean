/-! # Blank characters and the words between them

A line of a log is read word by word, and a word is a longest run of characters that are not
blank.  Blank are the white-space characters of Unicode and the four separators of ASCII that
stand before the space. -/

namespace Famicom.Text

/-- Whether a character separates words. -/
def isBlank (c : Char) : Bool :=
  let n := c.toNat
  (9 ≤ n && n ≤ 13) || (28 ≤ n && n ≤ 32) || n == 0x85 || n == 0xA0 || n == 0x1680 ||
    (0x2000 ≤ n && n ≤ 0x200A) || n == 0x2028 || n == 0x2029 || n == 0x202F || n == 0x205F ||
    n == 0x3000

theorem isBlank_of_isWhitespace {c : Char} (h : c.isWhitespace) : isBlank c := by
  simp only [Char.isWhitespace, Bool.or_eq_true, decide_eq_true_eq] at h
  rcases h with ((rfl | rfl) | rfl) | rfl <;> rfl

/-- A word put in front of other words, unless it is empty. -/
def consWord (word : List Char) (words : List (List Char)) : List (List Char) :=
  if word.isEmpty then words else word :: words

/-- The text up to the first blank, and the words after it. -/
def splitWord (cs : List Char) : List Char × List (List Char) :=
  cs.foldr
    (fun c acc => if isBlank c then ([], consWord acc.1 acc.2) else (c :: acc.1, acc.2))
    ([], [])

/-- The words of a text. -/
def words (cs : List Char) : List (List Char) :=
  consWord (splitWord cs).1 (splitWord cs).2

@[simp] theorem words_nil : words [] = [] := rfl

theorem words_cons_blank {c : Char} (h : isBlank c) (cs : List Char) :
    words (c :: cs) = words cs := by
  simp [words, splitWord, h, consWord]

/-- A text without a word is one of blanks only. -/
theorem words_eq_nil_iff {cs : List Char} : words cs = [] ↔ cs.all isBlank := by
  induction cs with
  | nil => simp
  | cons c cs ih =>
    by_cases h : isBlank c
    · rw [words_cons_blank h, ih]
      simp [h]
    · simp [words, splitWord, h, consWord]

end Famicom.Text
