import Famicom.Word
import Famicom.Proofs.Text.LetterCase
import Famicom.Proofs.Text.Spacing
import Famicom.Proofs.Trace.Line

/-! # Lines of reference logs

A reference log has lines like

    C000  4C F5 C5  JMP $C5F5                       A:00 X:00 Y:00 P:24 SP:FD PPU:  0, 21 CYC:7

The address, the bytes and the name come first, then the instruction in words of assembly language,
the registers, whatever else the machine that wrote the log has to tell, and mostly the cycles.
What such a line tells is a `Reference`; it may be spelt with digits in either case
(`Reference.Spelling`) and with any blanks between the words (`Text.Spaced`).  The main result is
`reads_reference_format`: what is read is what the line tells, since no word of the assembly
language and none of what comes after the registers is taken for another part.  A count of cycles
that has too many digits is refused, and so is a line without bytes or without all registers. -/

namespace Famicom.Trace

open Text
open Numeral (padded digits digitChars EitherCase)

/-- What a line of a reference log tells. -/
structure Reference where
  pc : Word
  data : List Byte
  /-- The number of stars, which mark instructions that are not documented. -/
  stars : Nat
  name : List Char
  /-- The words of assembly language after the name. -/
  assembly : List (List Char)
  a : Byte
  x : Byte
  y : Byte
  flags : Byte
  sp : Byte
  /-- The words after the registers. -/
  more : List (List Char)
  /-- The cycles, if they are told. -/
  cycles : Option Nat
  data_ne_nil : data ≠ []
  data_length : data.length ≤ 3
  name_length : name.length = 3
  name_alpha : name.all Char.isAlpha
  assembly_plain : ∀ w ∈ assembly, ¬ ['A', ':'] <+: w
  more_plain : cycles = none → ∀ w ∈ more.getLast?, ¬ ['C', 'Y', 'C', ':'] <+: w

namespace Reference

/-- The name with its stars. -/
def starredName (r : Reference) : List Char := List.replicate r.stars '*' ++ r.name

/-- The word for the cycles, if they are told. -/
def cyclesWords (r : Reference) : List (List Char) :=
  match r.cycles with
  | none => []
  | some n => [Entry.field ['C', 'Y', 'C'] (padded .ten 0 n)]

/-- The entry that is told. -/
def entry (r : Reference) : Entry where
  pc := r.pc.toNat
  data := r.data.map fun b => (b.toNat : Int)
  a := r.a.toNat
  x := r.x.toNat
  y := r.y.toNat
  flags := r.flags.toNat
  sp := r.sp.toNat
  mnemonic := String.ofList r.name
  cycles := r.cycles.getD 0

/-- The numbers of a line, spelt with digits in either case: four digits for the address, two for
each byte and register. -/
structure Spelling (r : Reference) where
  pc : List Char
  data : List (List Char)
  a : List Char
  x : List Char
  y : List Char
  flags : List Char
  sp : List Char
  pc_case : EitherCase pc (padded .sixteen 4 r.pc.toNat)
  data_case :
    List.Forall₂ (fun w b => EitherCase w (padded .sixteen 2 (BitVec.toNat b))) data r.data
  a_case : EitherCase a (padded .sixteen 2 r.a.toNat)
  x_case : EitherCase x (padded .sixteen 2 r.x.toNat)
  y_case : EitherCase y (padded .sixteen 2 r.y.toNat)
  flags_case : EitherCase flags (padded .sixteen 2 r.flags.toNat)
  sp_case : EitherCase sp (padded .sixteen 2 r.sp.toNat)

/-- The words from the registers on. -/
def Spelling.registerWords {r : Reference} (s : r.Spelling) : List (List Char) :=
  Entry.field ['A'] s.a :: Entry.field ['X'] s.x :: Entry.field ['Y'] s.y ::
    Entry.field ['P'] s.flags :: Entry.field ['S', 'P'] s.sp :: (r.more ++ r.cyclesWords)

/-- The words of a line. -/
def Spelling.words {r : Reference} (s : r.Spelling) : List (List Char) :=
  s.pc :: (s.data ++ r.starredName :: (r.assembly ++ s.registerWords))

/-! ### The parts of a line -/

variable {r : Reference}

theorem startsRegisters_eq_false {w : List Char} (h : ¬ ['A', ':'] <+: w) :
    Entry.startsRegisters w = false := by
  rw [Entry.startsRegisters, Bool.eq_false_iff]
  exact fun hp => h (List.isPrefixOf_iff_prefix.mp hp)

theorem name_eq (r : Reference) : ∃ c d e, r.name = [c, d, e] ∧ c.isAlpha ∧ d.isAlpha := by
  obtain ⟨c, d, e, hname⟩ := List.length_eq_three.mp r.name_length
  have halpha := List.all_eq_true.mp r.name_alpha
  rw [hname] at halpha
  exact ⟨c, d, e, hname, halpha c (by simp), halpha d (by simp)⟩

/-- A name is too long for a byte. -/
theorem byte?_starredName (r : Reference) : Entry.byte? r.starredName = none := by
  apply if_neg
  rw [starredName, List.length_append, List.length_replicate, r.name_length]
  omega

/-- A name is no register: its second letter is no colon. -/
theorem startsRegisters_starredName (r : Reference) :
    Entry.startsRegisters r.starredName = false := by
  obtain ⟨c, d, e, hname, -, hd⟩ := r.name_eq
  have hcolon : d ≠ ':' := by
    rintro rfl
    exact absurd hd (by decide)
  rw [starredName, hname]
  cases r.stars with
  | zero => simp [Entry.startsRegisters, List.isPrefixOf, hcolon.symm]
  | succ n => simp [Entry.startsRegisters, List.replicate_succ, List.isPrefixOf]

theorem dropWhile_starredName (r : Reference) :
    r.starredName.dropWhile (· = '*') = r.name := by
  obtain ⟨c, d, e, hname, hc, -⟩ := r.name_eq
  have hstar : c ≠ '*' := by
    rintro rfl
    exact absurd hc (by decide)
  rw [starredName, List.dropWhile_append_of_pos (by simp), hname]
  exact List.dropWhile_cons_of_neg (by simp [hstar])

theorem byte?_of_eitherCase {w : List Char} {b : Byte}
    (h : EitherCase w (padded .sixteen 2 b.toNat)) : Entry.byte? w = some (b.toNat : Int) := by
  have hlength : w.length = 2 :=
    h.length_eq.trans (Numeral.length_padded (by decide) (show b.toNat < 16 ^ 2 from b.isLt))
  rw [Entry.byte?, if_pos hlength, h.read_padded]
  rfl

theorem map_byte? {ws : List (List Char)} {bs : List Byte}
    (h : List.Forall₂ (fun w b => EitherCase w (padded .sixteen 2 (BitVec.toNat b))) ws bs) :
    ws.map Entry.byte? = (bs.map fun b => (b.toNat : Int)).map some := by
  induction h with
  | nil => rfl
  | cons hb _ ih => rw [List.map_cons, ih, byte?_of_eitherCase hb]; rfl

theorem fieldValue_of_eitherCase {name value : List Char} {n : Nat} (hn : ':' ∉ name)
    (h : EitherCase value (padded .sixteen 2 n)) :
    Entry.fieldValue .sixteen (Entry.field name value) = .ok (n : Int) := by
  have hcolon : ':' ∉ value := fun hc => absurd (h.mem_of_padded _ hc) (by decide)
  rw [Entry.fieldValue_of_notMem hn hcolon, Entry.numeral_eq_ok h.read_padded]

/-- Behind the assembly language come the registers. -/
theorem Spelling.dropWhile_words (s : r.Spelling) :
    (r.starredName :: (r.assembly ++ s.registerWords)).dropWhile
      (!Entry.startsRegisters ·) = s.registerWords := by
  have hall : ∀ w ∈ r.starredName :: r.assembly, (!Entry.startsRegisters w) = true := by
    refine List.forall_mem_cons.mpr ⟨by rw [startsRegisters_starredName]; rfl, fun w hw => ?_⟩
    rw [startsRegisters_eq_false (r.assembly_plain w hw)]
    rfl
  rw [← List.cons_append, List.dropWhile_append_of_pos hall]
  exact List.dropWhile_cons_of_neg (by simp [Entry.startsRegisters, Entry.field])

/-- A count of cycles is read unless it has too many digits. -/
theorem numeral_cycles (n : Nat) :
    Entry.numeral .ten (padded .ten 0 n) =
      if (digits .ten n).length ≤ Numeral.maxDecimalDigits then .ok (n : Int)
      else .error (.longNumeral (digits .ten n).length) := by
  by_cases h : (digits .ten n).length ≤ Numeral.maxDecimalDigits
  · rw [if_pos h]
    apply Entry.numeral_eq_ok
    apply Numeral.read_padded
    intro _
    rwa [Nat.zero_add, Int.natAbs_natCast, ← Numeral.length_digits]
  · rw [if_neg h, Entry.numeral, Numeral.read_ten_of_long (Nat.lt_of_not_le h)]

/-- The last word of a line tells the cycles, or there are none to be told. -/
theorem cyclesIn_last (r : Reference) (sp : List Char) :
    Entry.cyclesIn
      ((Entry.field ['S', 'P'] sp :: (r.more ++ r.cyclesWords)).getLast (List.cons_ne_nil _ _)) =
      if (digits .ten (r.cycles.getD 0)).length ≤ Numeral.maxDecimalDigits then
        .ok ((r.cycles.getD 0 : Nat) : Int)
      else .error (.longNumeral (digits .ten (r.cycles.getD 0)).length) := by
  cases hcycles : r.cycles with
  | some n =>
      have hwords : r.cyclesWords = [Entry.field ['C', 'Y', 'C'] (padded .ten 0 n)] := by
        rw [cyclesWords, hcycles]
      simp only [hwords, ← List.cons_append, List.getLast_append_singleton]
      rw [Entry.cyclesIn_padded, numeral_cycles]
      rfl
  | none =>
      have hwords : r.cyclesWords = [] := by rw [cyclesWords, hcycles]
      have hzero : (digits .ten 0).length ≤ Numeral.maxDecimalDigits := by
        rw [Numeral.length_digits, Nat.log_zero_right]
        decide
      have htells (w : List Char) (h : ¬ ['C', 'Y', 'C', ':'] <+: w) :
          Entry.cyclesIn w = .ok 0 := by
        rw [Entry.cyclesIn, if_neg]
        exact fun hp => h (List.isPrefixOf_iff_prefix.mp hp)
      simp only [hwords, List.append_nil]
      rw [Option.getD_none, if_pos hzero]
      apply htells
      have hmore := r.more_plain hcycles
      cases hm : r.more with
      | nil => simp [Entry.field]
      | cons w ws =>
          rw [hm] at hmore
          simp only [List.getLast_cons_cons]
          exact hmore _ (List.getLast?_eq_some_getLast _)

/-- What a line tells is read from it, unless the cycles have too many digits. -/
theorem ofLine_of_spelling (s : r.Spelling) {line : List Char} (h : Spaced s.words line) :
    Entry.ofLine line =
      if (digits .ten (r.cycles.getD 0)).length ≤ Numeral.maxDecimalDigits then .ok r.entry
      else .error (.longNumeral (digits .ten (r.cycles.getD 0)).length) := by
  have htake : Entry.takeBytes Entry.maxBytes
      (s.data ++ r.starredName :: (r.assembly ++ s.registerWords)) =
        (r.entry.data, r.starredName :: (r.assembly ++ s.registerWords)) := by
    refine Entry.takeBytes_bytes (map_byte? s.data_case) ?_ ?_
    · exact (List.length_map _).trans_le r.data_length
    · rintro - w ⟨⟩
      exact byte?_starredName r
  have hne : r.entry.data ≠ [] := fun hnil => r.data_ne_nil (List.map_eq_nil_iff.mp hnil)
  rw [Entry.ofLine_of_parts (e := r.entry) h.words_eq s.pc_case.read_padded htake hne
    s.dropWhile_words (fieldValue_of_eitherCase (by decide) s.a_case)
    (fieldValue_of_eitherCase (by decide) s.x_case)
    (fieldValue_of_eitherCase (by decide) s.y_case)
    (fieldValue_of_eitherCase (by decide) s.flags_case)
    (fieldValue_of_eitherCase (by decide) s.sp_case), cyclesIn_last, List.head?_cons,
    Option.getD_some, dropWhile_starredName]
  split <;> rfl

end Reference

/-! ### Lines that are refused -/

/-- A word of two characters that is a numeral of base sixteen. -/
def IsByteWord (w : List Char) : Prop := w.length = 2 ∧ ∃ n, Numeral.read .sixteen w = .ok n

/-- The words after the address of a line: as many bytes as there are, but no more than three, then
any words, and then those from the first register on. -/
structure Layout (ws : List (List Char)) where
  bytes : List (List Char)
  between : List (List Char)
  registers : List (List Char)
  words_eq : ws = bytes ++ (between ++ registers)
  isByteWord : ∀ w ∈ bytes, IsByteWord w
  length_le : bytes.length ≤ 3
  longest : bytes.length < 3 → ∀ w ∈ (between ++ registers).head?, ¬ IsByteWord w
  between_plain : ∀ w ∈ between, ¬ ['A', ':'] <+: w
  registers_start : ∀ w ∈ registers.head?, ['A', ':'] <+: w

theorem byte?_of_isByteWord {w : List Char} (h : IsByteWord w) :
    ∃ d, Entry.byte? w = some d := by
  obtain ⟨hlength, n, hread⟩ := h
  refine ⟨n, ?_⟩
  rw [Entry.byte?, if_pos hlength, hread]
  rfl

theorem byte?_of_not_isByteWord {w : List Char} (h : ¬ IsByteWord w) : Entry.byte? w = none := by
  unfold Entry.byte?
  split
  · rename_i hlength
    cases hread : Numeral.read .sixteen w with
    | error fault => rfl
    | ok n => exact absurd ⟨hlength, n, hread⟩ h
  · rfl

theorem exists_map_byte? {ws : List (List Char)} (h : ∀ w ∈ ws, IsByteWord w) :
    ∃ data : List Int, ws.map Entry.byte? = data.map some := by
  induction ws with
  | nil => exact ⟨[], rfl⟩
  | cons w ws ih =>
      obtain ⟨hw, hws⟩ := List.forall_mem_cons.mp h
      obtain ⟨d, hd⟩ := byte?_of_isByteWord hw
      obtain ⟨data, hdata⟩ := ih hws
      exact ⟨d :: data, by rw [List.map_cons, hd, hdata]; rfl⟩

namespace Layout

variable {ws : List (List Char)}

/-- The bytes of a line are those that are taken. -/
theorem takeBytes_eq (l : Layout ws) : ∃ data : List Int, data.length = l.bytes.length ∧
    Entry.takeBytes Entry.maxBytes ws = (data, l.between ++ l.registers) := by
  obtain ⟨data, hdata⟩ := exists_map_byte? l.isByteWord
  have hlength : data.length = l.bytes.length := by
    simpa using (congrArg List.length hdata).symm
  refine ⟨data, hlength, ?_⟩
  have htake := Entry.takeBytes_bytes (k := Entry.maxBytes) hdata (hlength.trans_le l.length_le)
    fun hlt w hw => byte?_of_not_isByteWord (l.longest (hlength ▸ hlt) w hw)
  rwa [← l.words_eq] at htake

/-- The registers of a line are those that are found. -/
theorem dropWhile_eq (l : Layout ws) :
    (l.between ++ l.registers).dropWhile (!Entry.startsRegisters ·) = l.registers := by
  rw [List.dropWhile_append_of_pos]
  · cases hr : l.registers with
    | nil => rfl
    | cons w rest =>
        have hstart : Entry.startsRegisters w = true :=
          List.isPrefixOf_iff_prefix.mpr (l.registers_start w (by rw [hr]; rfl))
        exact List.dropWhile_cons_of_neg (by rw [hstart]; decide)
  · intro w hw
    rw [Reference.startsRegisters_eq_false (l.between_plain w hw)]
    rfl

/-- A line without all registers is refused. -/
theorem ofLine_of_short (l : Layout ws) {first line : List Char} {pc : Int}
    (h : Spaced (first :: ws) line) (hpc : Numeral.read .sixteen first = .ok pc)
    (hbytes : l.bytes ≠ []) (hshort : l.registers.length < 5) :
    Entry.ofLine line = .error (.noRegisters line) := by
  obtain ⟨data, hlength, htake⟩ := l.takeBytes_eq
  refine Entry.ofLine_of_noRegisters h.words_eq hpc htake ?_ ?_
  · apply List.ne_nil_of_length_pos
    rw [hlength]
    exact List.length_pos_iff.mpr hbytes
  · rwa [l.dropWhile_eq]

end Layout

/-- **The format of reference logs is read.**  A line that tells something in this format is read as
what it tells, in either case of its digits and with any blanks between its words; only a count of
cycles that has too many digits is refused.  A line that begins with an address is refused if its
second word is no byte, and if it has fewer than five words from the first register on. -/
theorem reads_reference_format :
    (∀ (r : Reference) (s : r.Spelling) (line : List Char), Spaced s.words line →
      Entry.ofLine line =
        if (digits .ten (r.cycles.getD 0)).length ≤ Numeral.maxDecimalDigits then .ok r.entry
        else .error (.longNumeral (digits .ten (r.cycles.getD 0)).length)) ∧
    ∀ (first : List Char) (ws : List (List Char)) (line : List Char) (pc : Int),
      Spaced (first :: ws) line → Numeral.read .sixteen first = .ok pc →
        ((∀ w ∈ ws.head?, ¬ IsByteWord w) →
          Entry.ofLine line = .error (.noInstructionBytes line)) ∧
        ∀ l : Layout ws, l.bytes ≠ [] → l.registers.length < 5 →
          Entry.ofLine line = .error (.noRegisters line) := by
  constructor
  · intro r s line h
    exact r.ofLine_of_spelling s h
  · intro first ws line pc h hpc
    constructor
    · intro hbyte
      exact Entry.ofLine_of_noBytes h.words_eq hpc fun w hw => byte?_of_not_isByteWord (hbyte w hw)
    · intro l hbytes hshort
      exact l.ofLine_of_short h hpc hbytes hshort

/-- Small letters, a star and words that look like bytes and like the cycles; and a line in which a
register is missing. -/
theorem reads_reference_format_jmp :
    let line :=
      "C000  4c f5 C5 *JMP $C5F5 = AD  A:0a X:00 Y:fF P:24 SP:FD PPU: CYC:x, 21 CYC:7".toList
    let short := "C000  4C F5 C5  JMP $C5F5  A:00 X:00 Y:00 P:24".toList
    (∃ (r : Reference) (s : r.Spelling), Spaced s.words line ∧ r.entry.x = 0 ∧
      r.entry.mnemonic = "JMP" ∧ r.entry.cycles = 7 ∧ Entry.ofLine line = .ok r.entry) ∧
    Entry.ofLine short = .error (.noRegisters short) := by
  intro line short
  constructor
  · let r : Reference :=
      { pc := 0xC000, data := [0x4C, 0xF5, 0xC5], stars := 1, name := "JMP".toList
        assembly := ["$C5F5".toList, "=".toList, "AD".toList]
        a := 0x0A, x := 0, y := 0xFF, flags := 0x24, sp := 0xFD
        more := ["PPU:".toList, "CYC:x,".toList, "21".toList], cycles := some 7
        data_ne_nil := by decide
        data_length := by decide
        name_length := by decide +kernel
        name_alpha := by decide +kernel
        assembly_plain := by decide +kernel
        more_plain := by decide +kernel }
    let s : r.Spelling :=
      { pc := "C000".toList, data := ["4c".toList, "f5".toList, "C5".toList]
        a := "0a".toList, x := "00".toList, y := "fF".toList, flags := "24".toList
        sp := "FD".toList
        pc_case := by decide +kernel
        data_case := by decide +kernel
        a_case := by decide +kernel
        x_case := by decide +kernel
        y_case := by decide +kernel
        flags_case := by decide +kernel
        sp_case := by decide +kernel }
    have hline : Spaced s.words line := words_eq_iff.mp (by decide +kernel)
    refine ⟨r, s, hline, rfl, by decide +kernel, rfl, ?_⟩
    rw [reads_reference_format.1 r s line hline]
    exact if_pos (by decide +kernel)
  · let l : Layout (words short).tail :=
      { bytes := ["4C".toList, "F5".toList, "C5".toList]
        between := ["JMP".toList, "$C5F5".toList]
        registers := ["A:00".toList, "X:00".toList, "Y:00".toList, "P:24".toList]
        words_eq := by decide +kernel
        isByteWord := by
          simp only [List.forall_mem_cons]
          refine ⟨⟨by decide +kernel, 0x4C, ?_⟩, ⟨by decide +kernel, 0xF5, ?_⟩,
            ⟨by decide +kernel, 0xC5, ?_⟩, fun w hw => by cases hw⟩
          all_goals decide +kernel
        length_le := by decide
        longest := fun h => absurd h (by decide)
        between_plain := by decide +kernel
        registers_start := by decide +kernel }
    have hshort : Spaced ("C000".toList :: (words short).tail) short :=
      words_eq_iff.mp (by decide +kernel)
    exact (reads_reference_format.2 _ _ short 0xC000 hshort (by decide +kernel)).2 l (by decide)
      (by decide)

/-- An instruction that does nothing, after some number of cycles. -/
def Reference.idle (n : Nat) : Reference where
  pc := 0xC000
  data := [0xEA]
  stars := 0
  name := "NOP".toList
  assembly := []
  a := 0
  x := 0
  y := 0
  flags := 0x24
  sp := 0xFD
  more := []
  cycles := some n
  data_ne_nil := by decide
  data_length := by decide
  name_length := by decide +kernel
  name_alpha := by decide +kernel
  assembly_plain := by decide +kernel
  more_plain := by rintro ⟨⟩

theorem eitherCase_zero : EitherCase "00".toList (padded .sixteen 2 (0 : Byte).toNat) := by
  decide +kernel

/-- The spelling that the program itself would choose. -/
def Reference.idleSpelling (n : Nat) : (Reference.idle n).Spelling where
  pc := "C000".toList
  data := ["EA".toList]
  a := "00".toList
  x := "00".toList
  y := "00".toList
  flags := "24".toList
  sp := "FD".toList
  pc_case := (by decide +kernel : EitherCase _ (padded .sixteen 4 (0xC000 : Word).toNat))
  data_case := .cons (by decide +kernel) .nil
  a_case := eitherCase_zero
  x_case := eitherCase_zero
  y_case := eitherCase_zero
  flags_case := (by decide +kernel : EitherCase _ (padded .sixteen 2 (0x24 : Byte).toNat))
  sp_case := (by decide +kernel : EitherCase _ (padded .sixteen 2 (0xFD : Byte).toNat))

/-- A line with the given cycles. -/
def idleLine (n : Nat) : List Char :=
  "C000 EA NOP A:00 X:00 Y:00 P:24 SP:FD".toList ++
    ' ' :: Entry.field ['C', 'Y', 'C'] (padded .ten 0 n)

theorem spaced_idleLine (n : Nat) : Spaced (Reference.idleSpelling n).words (idleLine n) := by
  have hlast : words (Entry.field ['C', 'Y', 'C'] (padded .ten 0 n)) =
      [Entry.field ['C', 'Y', 'C'] (padded .ten 0 n)] :=
    words_of_isWord (Entry.isWord_field (by decide) Entry.isWord_padded)
  have hwords : words "C000 EA NOP A:00 X:00 Y:00 P:24 SP:FD".toList =
      ["C000".toList, "EA".toList, "NOP".toList, Entry.field ['A'] "00".toList,
        Entry.field ['X'] "00".toList, Entry.field ['Y'] "00".toList,
        Entry.field ['P'] "24".toList, Entry.field ['S', 'P'] "FD".toList] := by
    decide +kernel
  apply words_eq_iff.mp
  exact (words_append_blank (by decide) _ _).trans (congrArg₂ (· ++ ·) hwords hlast)

theorem length_digits_pow (k : Nat) : (digits .ten (10 ^ k)).length = k + 1 := by
  rw [Numeral.length_digits]
  exact congrArg (· + 1) (Nat.log_pow (by decide) k)

/-- A count of cycles with 4301 digits is refused. -/
theorem long_count_not_read :
    ∃ (r : Reference) (s : r.Spelling) (line : List Char), Spaced s.words line ∧
      (digits .ten (r.cycles.getD 0)).length = 4301 ∧
      Entry.ofLine line = .error (.longNumeral 4301) := by
  have hlength (n : Nat) (hn : (digits .ten n).length = 4301) :
      Entry.ofLine (idleLine n) = .error (.longNumeral 4301) := by
    rw [Reference.ofLine_of_spelling _ (spaced_idleLine n), Reference.idle, Option.getD_some, hn]
    exact if_neg (by decide)
  have hpow := length_digits_pow 4300
  exact ⟨.idle (10 ^ 4300), Reference.idleSpelling _, idleLine (10 ^ 4300), spaced_idleLine _,
    hpow, hlength _ hpow⟩

end Famicom.Trace
