import Mathlib.Data.List.TakeWhile
import Famicom.Cpu.Instruction
import Famicom.Proofs.Text.Numeral
import Famicom.Proofs.Text.Rows
import Famicom.Trace.Line

/-! # A line is read as it was written

What is read from a line is settled by its words: the numeral in front, the bytes after it and the
registers further on (`Entry.ofLine_of_parts`, and `Entry.exists_parts` the other way round).

A line is written in columns and read by its words.  The two fit together since each part of a line
is one word or, in the case of the bytes, some words (`Entry.words_toLine`), and since no part is
taken for another: the name of an operation has three letters, so it is no byte, though it may begin
with two digits of base sixteen, and it has no colon, so it is not the first register.  Hence an
entry is read again from any line with the same words (`Entry.ofLine_of_words`).

A line has no line end in it, so it is one row of a text (`Entry.rows_toLine`). -/

namespace Famicom

open Text

/-! ### Names -/

/-- The letters of which names are made. -/
def Mnemonic.letters : List Char :=
  ['A', 'B', 'C', 'D', 'E', 'F', 'G', 'H', 'I', 'J', 'K', 'L', 'M', 'N', 'O', 'P', 'Q', 'R', 'S',
    'T', 'U', 'V', 'W', 'X', 'Y', 'Z']

theorem Mnemonic.name_eq (m : Mnemonic) :
    ∃ a b c, m.name.toList = [a, b, c] ∧ [a, b, c] ⊆ letters := by
  cases m <;> exact ⟨_, _, _, rfl, by decide⟩

namespace Trace

theorem bind_of_ok {ε α β : Type} {x : Except ε α} {a : α} (h : x = .ok a) (f : α → Except ε β) :
    (x >>= f) = f a := by
  rw [h]
  rfl

theorem exists_of_bind {ε α β : Type} {x : Except ε α} {f : α → Except ε β} {b : β}
    (h : (x >>= f) = .ok b) : ∃ a, x = .ok a ∧ f a = .ok b := by
  cases x with
  | error e => cases h
  | ok a => exact ⟨a, rfl, h⟩

namespace Entry

open Numeral (padded digitChars)

/-- An entry that tells of an instruction: it has one to three bytes and the name of an
operation. -/
structure OfInstruction (e : Entry) : Prop where
  data_ne_nil : e.data ≠ []
  data_length : e.data.length ≤ 3
  data_bytes : ∀ d ∈ e.data, 0 ≤ d ∧ d < 256
  named : ∃ m : Mnemonic, e.mnemonic = m.name

/-- An entry that can be read: it tells of an instruction, and its cycles have no more digits than
are read.  The other numbers may be anything. -/
structure Loadable (e : Entry) : Prop extends OfInstruction e where
  cycles_lt : e.cycles.natAbs < 10 ^ Numeral.maxDecimalDigits

/-- An entry whose parts are words of its line: each of its bytes takes two characters, of which one
may be a sign, and its name has no blank. -/
structure Legible (e : Entry) : Prop where
  data_ne_nil : e.data ≠ []
  data_length : e.data.length ≤ 3
  data_bytes : ∀ d ∈ e.data, -16 < d ∧ d < 256
  name_solid : ∀ c ∈ e.mnemonic.toList, isBlank c = false
  cycles_lt : e.cycles.natAbs < 10 ^ Numeral.maxDecimalDigits

/-! ### The words of a line -/

variable {base : Numeral.Base} {width : Nat} {n : Int}

theorem isWord_padded : IsWord (padded base width n) := by
  have hblank : ('-' :: digitChars).all (!isBlank ·) = true := by decide
  exact ⟨Numeral.padded_ne_nil, fun c hc => isBlank_of_all hblank (Numeral.mem_padded hc)⟩

theorem isWord_name (m : Mnemonic) : IsWord m.name.toList := by
  have hblank : Mnemonic.letters.all (!isBlank ·) = true := by decide
  obtain ⟨a, b, c, hname, hletters⟩ := m.name_eq
  rw [hname]
  exact ⟨List.cons_ne_nil _ _, fun d hd => isBlank_of_all hblank (hletters hd)⟩

theorem Loadable.legible {e : Entry} (h : e.Loadable) : e.Legible where
  data_ne_nil := h.data_ne_nil
  data_length := h.data_length
  data_bytes := fun d hd => ⟨by have := h.data_bytes d hd; omega, (h.data_bytes d hd).2⟩
  name_solid := by
    obtain ⟨m, hm⟩ := h.named
    rw [hm]
    exact (isWord_name m).2
  cycles_lt := h.cycles_lt

/-- A text with a name and a colon in front. -/
def field (name value : List Char) : List Char := name ++ ':' :: value

theorem isWord_field {name value : List Char} (hn : name.all (!isBlank ·) = true)
    (hv : IsWord value) : IsWord (field name value) := by
  refine ⟨by simp [field], ?_⟩
  intro c hc
  rcases List.mem_append.mp hc with h | h
  · exact isBlank_of_all hn h
  · rcases List.mem_cons.mp h with rfl | h
    · rfl
    · exact hv.2 c h

/-- The last words of a line: the registers and the cycles. -/
def fields (e : Entry) : List (List Char) :=
  [field ['A'] (byteText e.a), field ['X'] (byteText e.x), field ['Y'] (byteText e.y),
    field ['P'] (byteText e.flags), field ['S', 'P'] (byteText e.sp),
    field ['C', 'Y', 'C'] (padded .ten 0 e.cycles)]

/-- The words of an entry that is written as a line. -/
def wordList (e : Entry) : List (List Char) :=
  padded .sixteen 4 e.pc :: (e.data.map byteText ++ e.mnemonic.toList :: e.fields)

theorem isWord_of_mem_fields {e : Entry} {w : List Char} (h : w ∈ e.fields) : IsWord w := by
  simp only [fields, List.mem_cons, List.not_mem_nil, or_false] at h
  rcases h with rfl | rfl | rfl | rfl | rfl | rfl <;>
    exact isWord_field (by decide) isWord_padded

theorem isWord_of_mem_bytes {e : Entry} {w : List Char} (h : w ∈ e.data.map byteText) :
    IsWord w := by
  obtain ⟨d, -, rfl⟩ := List.mem_map.mp h
  exact isWord_padded

/-- A byte fills its two characters, and so does a digit behind a minus sign. -/
theorem length_byteText {d : Int} (h : -16 < d ∧ d < 256) : (byteText d).length = 2 := by
  rcases Int.lt_or_le d 0 with hneg | hpos
  · have hlog : Nat.log 16 d.natAbs = 0 := Nat.log_of_lt (by omega)
    have hdigits : (Numeral.digits .sixteen d.natAbs).length = 1 := by
      rw [Numeral.length_digits]
      exact congrArg (· + 1) hlog
    have hsign : Numeral.sign d = ['-'] := if_pos hneg
    simp [byteText, padded, hsign, hdigits]
  · obtain ⟨k, rfl⟩ := Int.eq_ofNat_of_zero_le hpos
    exact Numeral.length_padded (by decide) (show k < 16 ^ 2 by omega)

theorem length_intercalate_le {ws : List (List Char)} (h : ∀ w ∈ ws, w.length = 2) :
    ([' '].intercalate ws).length ≤ 3 * ws.length := by
  induction ws with
  | nil => exact Nat.le_refl 0
  | cons w ws ih =>
      obtain ⟨hw, hws⟩ := List.forall_mem_cons.mp h
      have hih := ih hws
      cases ws with
      | nil =>
          rw [List.intercalate_singleton, hw, List.length_singleton]
          decide
      | cons w' ws =>
          rw [List.intercalate_cons_cons, List.length_append, List.length_append, hw]
          simp only [List.length_cons, List.length_nil] at hih ⊢
          omega

/-- The bytes of an entry do not fill their column. -/
theorem length_dataText {e : Entry} (h : e.Legible) : e.dataText.length < 10 := by
  have hbytes : ∀ w ∈ e.data.map byteText, w.length = 2 := by
    intro w hw
    obtain ⟨d, hd, rfl⟩ := List.mem_map.mp hw
    exact length_byteText (h.data_bytes d hd)
  have hle := length_intercalate_le hbytes
  have hdata := h.data_length
  rw [List.length_map] at hle
  unfold dataText
  omega

theorem words_column {cs : List Char} (h : cs.length < width) (rest : List Char) :
    words (column width cs ++ rest) = words cs ++ words rest := by
  obtain ⟨k, hk⟩ : ∃ k, width - cs.length = k + 1 := ⟨width - cs.length - 1, by omega⟩
  have hblanks : (List.replicate k ' ').all isBlank = true := by
    rw [List.all_replicate]
    split <;> rfl
  rw [column, hk, List.replicate_succ, List.append_assoc, List.cons_append,
    words_append_blank (by decide), words_append_of_blank_left hblanks]

theorem toLine_eq (e : Entry) : e.toLine = padded .sixteen 4 e.pc ++ ' ' :: ' ' ::
    (column 10 e.dataText ++ (column 32 e.mnemonic.toList ++ [' '].intercalate e.fields)) := by
  simp only [toLine, List.append_assoc]
  rfl

/-- In front of the name stand the words of the address and of the bytes. -/
theorem words_toLine_of_legible {e : Entry} (h : e.Legible) :
    words e.toLine = padded .sixteen 4 e.pc :: (e.data.map byteText ++
      words (column 32 e.mnemonic.toList ++ [' '].intercalate e.fields)) := by
  have hpc : words (padded .sixteen 4 e.pc) = [padded .sixteen 4 e.pc] :=
    words_of_isWord isWord_padded
  have hdata : words e.dataText = e.data.map byteText :=
    words_intercalate (by decide) fun w hw => isWord_of_mem_bytes hw
  rw [e.toLine_eq, words_append_blank (by decide), words_cons_blank (by decide),
    words_column (length_dataText h), hpc, hdata]
  rfl

theorem words_fields (e : Entry) : words ([' '].intercalate e.fields) = e.fields :=
  words_intercalate (by decide) fun w hw => isWord_of_mem_fields hw

/-- A name that leaves room for a blank in its column is a word of its own, if there is any. -/
theorem words_name {e : Entry} (h : e.Legible) (hfit : e.mnemonic.toList.length < 32) :
    words (column 32 e.mnemonic.toList ++ [' '].intercalate e.fields) =
      consWord e.mnemonic.toList e.fields := by
  rw [words_column hfit, words_fields]
  by_cases hname : e.mnemonic.toList = []
  · rw [hname]
    rfl
  · rw [words_of_isWord ⟨hname, h.name_solid⟩, consWord, if_neg]
    · rfl
    · rwa [List.isEmpty_iff]

/-- **The words of a line** are those of its parts, though the values may be wider than their
columns. -/
theorem words_toLine {e : Entry} (h : e.Loadable) : words e.toLine = e.wordList := by
  obtain ⟨m, hm⟩ := h.named
  obtain ⟨a, b, c, hletters, -⟩ := m.name_eq
  have hname : e.mnemonic.toList = [a, b, c] := by rw [hm, hletters]
  have hfit : e.mnemonic.toList.length < 32 := by
    rw [hname]
    exact Nat.lt_of_succ_lt_succ (by decide : 4 < 33)
  rw [words_toLine_of_legible h.legible, words_name h.legible hfit, wordList, hname]
  rfl

/-! ### Reading a line -/

theorem byte?_byteText {d : Int} (h : -16 < d ∧ d < 256) : byte? (byteText d) = some d := by
  unfold byte?
  rw [if_pos (length_byteText h), byteText, Numeral.read_padded_sixteen]
  rfl

/-- Words that are bytes are taken before what comes after them, if they are not too many. -/
theorem takeBytes_append {bytes : List (List Char)} {data : List Int}
    (hbytes : bytes.map byte? = data.map some) {k : Nat} (hk : data.length ≤ k)
    (rest : List (List Char)) :
    takeBytes k (bytes ++ rest) =
      (data ++ (takeBytes (k - data.length) rest).1, (takeBytes (k - data.length) rest).2) := by
  induction data generalizing bytes k with
  | nil =>
      obtain rfl := List.map_eq_nil_iff.mp hbytes
      rfl
  | cons d data ih =>
      cases bytes with
      | nil => cases hbytes
      | cons w bytes =>
          obtain ⟨hw, hrest⟩ := List.cons.inj hbytes
          cases k with
          | zero => cases hk
          | succ k =>
              rw [List.cons_append, takeBytes, hw]
              dsimp only
              rw [ih hrest (Nat.le_of_succ_le_succ hk), List.length_cons, Nat.succ_sub_succ]
              rfl

/-- A word that is no byte ends the bytes. -/
theorem takeBytes_of_stop {k : Nat} {ws : List (List Char)}
    (h : 0 < k → ∀ w ∈ ws.head?, byte? w = none) : takeBytes k ws = ([], ws) := by
  cases k with
  | zero => rfl
  | succ k =>
      cases ws with
      | nil => rfl
      | cons w ws => rw [takeBytes, h (Nat.succ_pos k) w rfl]

/-- Bytes are taken as long as there are any and they are not too many. -/
theorem takeBytes_bytes {bytes : List (List Char)} {data : List Int}
    (hbytes : bytes.map byte? = data.map some) {k : Nat} (hk : data.length ≤ k)
    {rest : List (List Char)} (hstop : data.length < k → ∀ w ∈ rest.head?, byte? w = none) :
    takeBytes k (bytes ++ rest) = (data, rest) := by
  rw [takeBytes_append hbytes hk, takeBytes_of_stop fun hpos => hstop (by omega), List.append_nil]

theorem map_byte?_bytes {data : List Int} (h : ∀ d ∈ data, -16 < d ∧ d < 256) :
    (data.map byteText).map byte? = data.map some := by
  rw [List.map_map]
  exact List.map_congr_left fun d hd => byte?_byteText (h d hd)

theorem numeral_eq_ok {text : List Char} (h : Numeral.read base text = .ok n) :
    numeral base text = .ok n := by
  unfold numeral
  rw [h]

theorem fieldText_field {name value : List Char} (hn : ':' ∉ name) (hv : ':' ∉ value) :
    fieldText (field name value) = .ok value := by
  have hdrop : (field name value).dropWhile (· ≠ ':') = ':' :: value := by
    rw [field, List.dropWhile_append_of_pos]
    · rfl
    · intro c hc
      exact decide_eq_true fun h => hn (h ▸ hc)
  have htake : value.takeWhile (· ≠ ':') = value := by
    rw [List.takeWhile_eq_self_iff]
    intro c hc
    exact decide_eq_true fun h => hv (h ▸ hc)
  unfold fieldText
  rw [hdrop]
  dsimp only
  rw [htake]

/-- Between a name and its value there is one colon, so the value is read. -/
theorem fieldValue_of_notMem {name value : List Char} (hn : ':' ∉ name) (hv : ':' ∉ value) :
    fieldValue base (field name value) = numeral base value := by
  unfold fieldValue
  rw [fieldText_field hn hv]
  rfl

theorem fieldValue_field {name : List Char} (hn : ':' ∉ name)
    (h : Numeral.read base (padded base width n) = .ok n) :
    fieldValue base (field name (padded base width n)) = .ok n := by
  have hcolon : ':' ∉ padded base width n := fun hc => absurd (Numeral.mem_padded hc) (by decide)
  rw [fieldValue_of_notMem hn hcolon, numeral_eq_ok h]

/-- The word for the cycles is read as a numeral. -/
theorem cyclesIn_padded (n : Int) :
    cyclesIn (field ['C', 'Y', 'C'] (padded .ten 0 n)) = numeral .ten (padded .ten 0 n) := by
  have htells : tellsCycles (field ['C', 'Y', 'C'] (padded .ten 0 n)) = true := by
    simp [tellsCycles, field]
  have hcolon : ':' ∉ padded .ten 0 n := fun hc => absurd (Numeral.mem_padded hc) (by decide)
  unfold cyclesIn
  rw [if_pos htells, fieldValue_of_notMem (by decide) hcolon]

theorem cyclesIn_field (h : n.natAbs < 10 ^ Numeral.maxDecimalDigits) :
    cyclesIn (field ['C', 'Y', 'C'] (padded .ten 0 n)) = .ok n := by
  rw [cyclesIn_padded, numeral_eq_ok (Numeral.read_padded_ten h)]

/-- A line is read part by part: the address, the bytes, the registers and, in its last word, the
cycles. -/
theorem ofLine_of_parts {e : Entry} {line first a x y flags sp : List Char}
    {ws rest more : List (List Char)} (hw : words line = first :: ws)
    (hpc : Numeral.read .sixteen first = .ok e.pc) (htake : takeBytes maxBytes ws = (e.data, rest))
    (hne : e.data ≠ [])
    (hdrop : rest.dropWhile (!startsRegisters ·) = a :: x :: y :: flags :: sp :: more)
    (ha : fieldValue .sixteen a = .ok e.a) (hx : fieldValue .sixteen x = .ok e.x)
    (hy : fieldValue .sixteen y = .ok e.y) (hflags : fieldValue .sixteen flags = .ok e.flags)
    (hsp : fieldValue .sixteen sp = .ok e.sp) :
    ofLine line = (cyclesIn ((sp :: more).getLast (List.cons_ne_nil _ _))).map fun cycles =>
      { e with mnemonic := String.ofList ((rest.head?.getD []).dropWhile (· = '*')), cycles } := by
  have hdata : e.data.isEmpty = false := List.isEmpty_eq_false_iff.mpr hne
  unfold ofLine
  rw [hw]
  dsimp only
  rw [bind_of_ok (numeral_eq_ok hpc), htake]
  dsimp only
  rw [hdata, if_neg Bool.false_ne_true, hdrop]
  dsimp only
  rw [bind_of_ok ha, bind_of_ok hx, bind_of_ok hy, bind_of_ok hflags, bind_of_ok hsp]
  cases cyclesIn ((sp :: more).getLast (List.cons_ne_nil _ _)) <;> rfl

/-- The parts of a line that was read. -/
theorem exists_parts {line : List Char} {e : Entry} (h : ofLine line = .ok e) :
    ∃ first ws rest last, words line = first :: ws ∧ takeBytes maxBytes ws = (e.data, rest) ∧
      e.data ≠ [] ∧ e.mnemonic = String.ofList ((rest.head?.getD []).dropWhile (· = '*')) ∧
      cyclesIn last = .ok e.cycles := by
  unfold ofLine at h
  split at h
  · cases h
  · rename_i first ws hw
    obtain ⟨pc, -, h⟩ := exists_of_bind h
    rcases htake : takeBytes maxBytes ws with ⟨data, rest⟩
    rw [htake] at h
    dsimp only at h
    split at h
    · cases h
    · rename_i hne
      split at h
      · obtain ⟨a, -, h⟩ := exists_of_bind h
        obtain ⟨x, -, h⟩ := exists_of_bind h
        obtain ⟨y, -, h⟩ := exists_of_bind h
        obtain ⟨flags, -, h⟩ := exists_of_bind h
        obtain ⟨sp, -, h⟩ := exists_of_bind h
        obtain ⟨cycles, hcycles, h⟩ := exists_of_bind h
        cases h
        exact ⟨first, ws, rest, _, hw, htake, fun hnil => hne (List.isEmpty_iff.mpr hnil), rfl,
          hcycles⟩
      · cases h

/-- A line whose second word is no byte is refused. -/
theorem ofLine_of_noBytes {line first : List Char} {ws : List (List Char)} {pc : Int}
    (hw : words line = first :: ws) (hpc : Numeral.read .sixteen first = .ok pc)
    (hbyte : ∀ w ∈ ws.head?, byte? w = none) : ofLine line = .error (.noInstructionBytes line) := by
  have htake : takeBytes maxBytes ws = ([], ws) := takeBytes_of_stop fun _ => hbyte
  unfold ofLine
  rw [hw]
  dsimp only
  rw [bind_of_ok (numeral_eq_ok hpc), htake]
  rfl

/-- A line with fewer than five words from the first register on is refused. -/
theorem ofLine_of_noRegisters {line first : List Char} {ws rest : List (List Char)} {pc : Int}
    {data : List Int} (hw : words line = first :: ws) (hpc : Numeral.read .sixteen first = .ok pc)
    (htake : takeBytes maxBytes ws = (data, rest)) (hne : data ≠ [])
    (hshort : (rest.dropWhile (!startsRegisters ·)).length < 5) :
    ofLine line = .error (.noRegisters line) := by
  have hdata : data.isEmpty = false := List.isEmpty_eq_false_iff.mpr hne
  unfold ofLine
  rw [hw]
  dsimp only
  rw [bind_of_ok (numeral_eq_ok hpc), htake]
  dsimp only
  rw [hdata, if_neg Bool.false_ne_true]
  split
  · rename_i hdrop
    rw [hdrop] at hshort
    simp only [List.length_cons] at hshort
    omega
  · rfl

/-- An entry is read from any line with its words behind a name, whatever stands for the name. -/
theorem ofLine_of_fields {e : Entry} (h : e.Legible) {line : List Char} {ws rest : List (List Char)}
    (hw : words line = padded .sixteen 4 e.pc :: ws)
    (htake : takeBytes maxBytes ws = (e.data, rest))
    (hdrop : rest.dropWhile (!startsRegisters ·) = e.fields) :
    ofLine line = .ok
      { e with mnemonic := String.ofList ((rest.head?.getD []).dropWhile (· = '*')) } := by
  have hregister (name : List Char) (hn : ':' ∉ name) (n : Int) :
      fieldValue .sixteen (field name (byteText n)) = .ok n :=
    fieldValue_field hn (Numeral.read_padded_sixteen 2 n)
  rw [ofLine_of_parts hw (Numeral.read_padded_sixteen 4 e.pc) htake h.data_ne_nil hdrop
    (hregister ['A'] (by decide) e.a) (hregister ['X'] (by decide) e.x)
    (hregister ['Y'] (by decide) e.y) (hregister ['P'] (by decide) e.flags)
    (hregister ['S', 'P'] (by decide) e.sp)]
  -- The last of these words tells the cycles.
  dsimp only [List.getLast_cons_cons, List.getLast_singleton]
  rw [cyclesIn_field h.cycles_lt]
  rfl

/-- A name is too long for a byte, though its first two letters may be digits. -/
theorem byte?_name {e : Entry} (h : ∃ m : Mnemonic, e.mnemonic = m.name) :
    byte? e.mnemonic.toList = none := by
  obtain ⟨m, hm⟩ := h
  obtain ⟨a, b, c, hletters, -⟩ := m.name_eq
  rw [hm, hletters]
  rfl

/-- The registers are found behind the name of an operation. -/
theorem dropWhile_name {e : Entry} (h : ∃ m : Mnemonic, e.mnemonic = m.name) :
    (e.mnemonic.toList :: e.fields).dropWhile (!startsRegisters ·) = e.fields := by
  obtain ⟨m, hm⟩ := h
  obtain ⟨a, b, c, hname, hletters⟩ := m.name_eq
  have hb : b ≠ ':' := by
    rintro rfl
    exact absurd (hletters (List.mem_cons_of_mem a List.mem_cons_self)) (by decide)
  have hstart : startsRegisters e.mnemonic.toList = false := by
    rw [hm, hname]
    simp [startsRegisters, List.isPrefixOf, hb.symm]
  rw [List.dropWhile_cons_of_pos (by rw [hstart]; rfl)]
  exact List.dropWhile_cons_of_neg (by simp [startsRegisters, field])

/-- A name has no stars in front. -/
theorem dropWhile_stars {e : Entry} (h : ∃ m : Mnemonic, e.mnemonic = m.name) :
    String.ofList (e.mnemonic.toList.dropWhile (· = '*')) = e.mnemonic := by
  obtain ⟨m, hm⟩ := h
  obtain ⟨a, b, c, hname, hletters⟩ := m.name_eq
  have ha : a ≠ '*' := by
    rintro rfl
    exact absurd (hletters List.mem_cons_self) (by decide)
  have hdrop : e.mnemonic.toList.dropWhile (· = '*') = e.mnemonic.toList := by
    rw [hm, hname]
    exact List.dropWhile_cons_of_neg (by simp [ha])
  rw [hdrop, String.ofList_toList]

/-- An entry is read from any line that has its words. -/
theorem ofLine_of_words {e : Entry} (h : e.Loadable) {line : List Char}
    (hw : words line = e.wordList) : ofLine line = .ok e := by
  have htake : takeBytes maxBytes (e.data.map byteText ++ e.mnemonic.toList :: e.fields) =
      (e.data, e.mnemonic.toList :: e.fields) := by
    refine takeBytes_bytes (map_byte?_bytes h.legible.data_bytes) h.data_length ?_
    rintro - w ⟨⟩
    exact byte?_name h.named
  rw [ofLine_of_fields h.legible hw htake (dropWhile_name h.named), List.head?_cons,
    Option.getD_some, dropWhile_stars h.named]

/-! ### The row of a line -/

theorem mem_column {cs : List Char} {c : Char} (h : c ∈ column width cs) : c = ' ' ∨ c ∈ cs := by
  rcases List.mem_append.mp h with hc | hblank
  · exact Or.inr hc
  · exact Or.inl (List.eq_of_mem_replicate hblank)

/-- A line has no blank but the space. -/
theorem mem_toLine {e : Entry} (h : e.Loadable) {c : Char} (hc : c ∈ e.toLine) :
    c = ' ' ∨ isBlank c = false := by
  obtain ⟨m, hm⟩ := h.named
  rw [e.toLine_eq] at hc
  simp only [List.mem_append, List.mem_cons] at hc
  rcases hc with hpc | rfl | rfl | hdata | hname | hfields
  · exact Or.inr (isWord_padded.2 c hpc)
  · exact Or.inl rfl
  · exact Or.inl rfl
  · rcases mem_column hdata with rfl | hdata
    · exact Or.inl rfl
    · refine (mem_intercalate hdata).imp List.mem_singleton.mp ?_
      rintro ⟨w, hw, hc⟩
      exact (isWord_of_mem_bytes hw).2 c hc
  · rcases mem_column hname with rfl | hname
    · exact Or.inl rfl
    · rw [hm] at hname
      exact Or.inr ((isWord_name m).2 c hname)
  · refine (mem_intercalate hfields).imp List.mem_singleton.mp ?_
    rintro ⟨w, hw, hc⟩
    exact (isWord_of_mem_fields hw).2 c hc

theorem all_isBlank_toLine {e : Entry} (h : e.Loadable) : e.toLine.all isBlank = false := by
  rw [Bool.eq_false_iff]
  intro hall
  have hnone : e.wordList = [] := (words_toLine h).symm.trans (words_of_blank hall)
  exact List.cons_ne_nil _ _ hnone

theorem rows_toLine {e : Entry} (h : e.Loadable) : rows e.toLine = [e.wordList] := by
  have hline : ∀ c ∈ e.toLine, ¬ IsEnd c := by
    intro c hc hend
    rcases mem_toLine h hc with rfl | hblank
    · exact absurd hend (by decide)
    · rw [isBlank_of_isEnd hend] at hblank
      cases hblank
  have hne : words e.toLine ≠ [] := by
    rw [words_toLine h]
    exact List.cons_ne_nil _ _
  rw [rows_of_line hline, row, if_neg hne, words_toLine h]

end Entry

end Trace

end Famicom
