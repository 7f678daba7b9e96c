import Famicom.Proofs.Text.Spacing
import Famicom.Proofs.Trace.Line

/-! # Reading a line that was written from a read one

Reading is generous: numerals have signs, marks and digits of any script, words stand anywhere, and
whatever comes after the bytes is taken for the name, without its stars.  Writing is plain.  So a
line that was read, and is then written, has a normal form, which is read as the same entry unless
the name gets in the way (`Entry.reread_iff`).  A name gets in the way if it fills its column, so
that no blank divides it from the first register, and if it looks like a byte where there is room
for one more: stars are not written, and without them `*AD` does. -/

namespace Famicom.Trace.Entry

open Text
open Numeral (padded)

variable {e : Entry} {line : List Char}

/-- The entry is read again from the line that it is written as. -/
def Rereads (e : Entry) : Prop :=
  ∃ e', ofLine e.toLine = .ok e' ∧ e'.Agrees e ∧ e'.cycles = e.cycles

/-! ### What is read -/

theorem read_of_numeral {base : Numeral.Base} {text : List Char} {n : Int}
    (h : numeral base text = .ok n) : Numeral.read base text = .ok n := by
  unfold numeral at h
  split at h
  · rename_i hread
    rw [hread, Except.ok.inj h]
  · cases h
  · cases h

theorem byte?_bounds {w : List Char} {d : Int} (h : byte? w = some d) : -16 < d ∧ d < 256 := by
  unfold byte? at h
  split at h
  · rename_i hlength
    cases hread : Numeral.read .sixteen w with
    | error fault =>
        rw [hread] at h
        cases h
    | ok n =>
        rw [hread] at h
        cases h
        exact Numeral.read_of_length_two hread hlength
  · cases h

theorem natAbs_lt_of_cyclesIn {word : List Char} {n : Int} (h : cyclesIn word = .ok n) :
    n.natAbs < 10 ^ Numeral.maxDecimalDigits := by
  unfold cyclesIn at h
  split at h
  · obtain ⟨text, -, htext⟩ := exists_of_bind h
    exact Numeral.read_ten_lt (read_of_numeral htext)
  · rw [← Except.ok.inj h, Int.natAbs_zero]
    exact Nat.pow_pos (by decide)

/-- The words that are taken for bytes are bytes, and are not too many. -/
theorem takeBytes_spec {k : Nat} {ws rest : List (List Char)} {data : List Int}
    (h : takeBytes k ws = (data, rest)) :
    data.length ≤ k ∧ (∀ d ∈ data, -16 < d ∧ d < 256) ∧ rest <:+ ws := by
  induction k generalizing ws data with
  | zero =>
      cases h
      exact ⟨Nat.le_refl _, fun d hd => (by cases hd), List.suffix_refl _⟩
  | succ k ih =>
      cases ws with
      | nil =>
          cases h
          exact ⟨Nat.zero_le _, fun d hd => (by cases hd), List.suffix_refl _⟩
      | cons w ws =>
          rw [takeBytes] at h
          cases hw : byte? w with
          | none =>
              rw [hw] at h
              cases h
              exact ⟨Nat.zero_le _, fun d hd => (by cases hd), List.suffix_refl _⟩
          | some d =>
              rw [hw] at h
              cases h
              obtain ⟨hlength, hdata, hrest⟩ := ih rfl
              exact ⟨Nat.succ_le_succ hlength, List.forall_mem_cons.mpr ⟨byte?_bounds hw, hdata⟩,
                hrest.trans (List.suffix_cons w ws)⟩

/-- What was read from a line can be told from words again. -/
theorem legible_of_ofLine (h : ofLine line = .ok e) : e.Legible := by
  obtain ⟨first, ws, rest, last, hw, htake, hne, hname, hcycles⟩ := exists_parts h
  obtain ⟨hlength, hdata, hrest⟩ := takeBytes_spec htake
  refine ⟨hne, hlength, hdata, ?_, natAbs_lt_of_cyclesIn hcycles⟩
  intro c hc
  rw [hname, String.toList_ofList] at hc
  have hmem : c ∈ rest.head?.getD [] := (List.dropWhile_sublist _).subset hc
  cases rest with
  | nil => cases hmem
  | cons w rest =>
      have hword : w ∈ words line := by
        rw [hw]
        exact List.mem_cons_of_mem _ (hrest.subset List.mem_cons_self)
      exact (isWord_of_mem_words hword).2 c hmem

/-! ### The name -/

/-- The first register is too long for a byte, whatever stands in front of it. -/
theorem byte?_append_register (u : List Char) (n : Int) :
    byte? (u ++ field ['A'] (byteText n)) = none := by
  have hpos : 0 < (byteText n).length := List.length_pos_iff.mpr Numeral.padded_ne_nil
  apply if_neg
  simp only [field, List.length_append, List.length_cons, List.length_nil]
  omega

/-- The registers begin where they are written. -/
theorem dropWhile_fields (e : Entry) : e.fields.dropWhile (!startsRegisters ·) = e.fields :=
  List.dropWhile_cons_of_neg (by simp [startsRegisters, field])

/-- None of the words after the first register is taken for it. -/
theorem dropWhile_tail_fields (e : Entry) : e.fields.tail.dropWhile (!startsRegisters ·) = [] := by
  simp [fields, field, startsRegisters, List.isPrefixOf]

theorem startsRegisters_append {u : List Char} (h : 2 ≤ u.length) (v : List Char) :
    startsRegisters (u ++ v) = startsRegisters u := by
  match u, h with
  | c :: d :: u, _ => simp [startsRegisters, List.isPrefixOf]

/-- A name that leaves room for a blank, and is taken neither for a byte nor for a register, does
not get in the way. -/
theorem rereads_of_name (h : e.Legible) (hstart : startsRegisters e.mnemonic.toList = false)
    (hfit : e.mnemonic.toList.length < 32)
    (hbyte : e.data.length < 3 → byte? e.mnemonic.toList = none) : e.Rereads := by
  have hw : words e.toLine = padded .sixteen 4 e.pc ::
      (e.data.map byteText ++ consWord e.mnemonic.toList e.fields) := by
    rw [words_toLine_of_legible h, words_name h hfit]
  have hrest : (∀ w ∈ (consWord e.mnemonic.toList e.fields).head?,
      e.data.length < 3 → byte? w = none) ∧
      (consWord e.mnemonic.toList e.fields).dropWhile (!startsRegisters ·) = e.fields := by
    unfold consWord
    split
    · refine ⟨?_, dropWhile_fields e⟩
      rintro w ⟨⟩ -
      exact byte?_append_register [] e.a
    · refine ⟨?_, ?_⟩
      · rintro w ⟨⟩
        exact hbyte
      · rw [List.dropWhile_cons_of_pos (by rw [hstart]; rfl), dropWhile_fields]
  have htake : takeBytes maxBytes (e.data.map byteText ++ consWord e.mnemonic.toList e.fields) =
      (e.data, consWord e.mnemonic.toList e.fields) :=
    takeBytes_bytes (map_byte?_bytes h.data_bytes) h.data_length fun hlt w hw => hrest.1 w hw hlt
  exact ⟨_, ofLine_of_fields h hw htake hrest.2, agrees_refl e, rfl⟩

/-- Without a blank after it a name takes the first register with it. -/
theorem words_long_name (h : e.Legible) (hlong : 32 ≤ e.mnemonic.toList.length) :
    words (column 32 e.mnemonic.toList ++ [' '].intercalate e.fields) =
      (e.mnemonic.toList ++ field ['A'] (byteText e.a)) :: e.fields.tail := by
  have hcolumn : column 32 e.mnemonic.toList = e.mnemonic.toList := by
    rw [column, Nat.sub_eq_zero_of_le hlong, List.replicate_zero, List.append_nil]
  have hregister : IsWord (field ['A'] (byteText e.a)) := isWord_of_mem_fields List.mem_cons_self
  have hword : IsWord (e.mnemonic.toList ++ field ['A'] (byteText e.a)) := by
    refine ⟨List.append_ne_nil_of_right_ne_nil _ hregister.1, fun c hc => ?_⟩
    rcases List.mem_append.mp hc with hc | hc
    · exact h.name_solid c hc
    · exact hregister.2 c hc
  have hrest : words ([' '].intercalate e.fields.tail) = e.fields.tail :=
    words_intercalate (by decide) fun w hw => isWord_of_mem_fields (List.mem_of_mem_tail hw)
  have htext : [' '].intercalate e.fields =
      field ['A'] (byteText e.a) ++ ' ' :: [' '].intercalate e.fields.tail := by
    rw [fields, List.intercalate_cons_cons, List.append_assoc]
    rfl
  rw [hcolumn, htext, ← List.append_assoc, words_append_blank (by decide), words_of_isWord hword,
    hrest]
  rfl

/-- A name that fills its column hides the registers. -/
theorem ofLine_toLine_of_long (h : e.Legible) (hstart : startsRegisters e.mnemonic.toList = false)
    (hlong : 32 ≤ e.mnemonic.toList.length) :
    ofLine e.toLine = .error (.noRegisters e.toLine) := by
  have hw := words_toLine_of_legible h
  rw [words_long_name h hlong] at hw
  refine ofLine_of_noRegisters hw (Numeral.read_padded_sixteen 4 e.pc)
    (takeBytes_bytes (map_byte?_bytes h.data_bytes) h.data_length ?_) h.data_ne_nil ?_
  · rintro - w ⟨⟩
    exact byte?_append_register e.mnemonic.toList e.a
  · have hfirst : startsRegisters (e.mnemonic.toList ++ field ['A'] (byteText e.a)) = false := by
      rw [startsRegisters_append (by omega), hstart]
    rw [List.dropWhile_cons_of_pos (by rw [hfirst]; rfl), dropWhile_tail_fields]
    exact Nat.succ_pos 4

/-- A name that looks like a byte is taken for one, if there is room. -/
theorem data_of_byte (h : e.Legible) (hroom : e.data.length < 3) {b : Int}
    (hb : byte? e.mnemonic.toList = some b) {e' : Entry} (h' : ofLine e.toLine = .ok e') :
    e'.data ≠ e.data := by
  have hlength : e.mnemonic.toList.length = 2 := by
    by_contra hne
    rw [byte?, if_neg hne] at hb
    cases hb
  have hne : ¬ e.mnemonic.toList.isEmpty := by
    intro hnil
    rw [List.isEmpty_iff.mp hnil] at hlength
    cases hlength
  have hw := words_toLine_of_legible h
  rw [words_name h (by omega), consWord, if_neg hne] at hw
  obtain ⟨first, ws, rest, last, hw', htake, -⟩ := exists_parts h'
  obtain ⟨-, rfl⟩ := List.cons.inj (hw.symm.trans hw')
  obtain ⟨room, hmax⟩ : ∃ room, maxBytes - e.data.length = room + 1 :=
    ⟨2 - e.data.length, by rw [maxBytes]; omega⟩
  rw [takeBytes_append (k := maxBytes) (map_byte?_bytes h.data_bytes) h.data_length, hmax,
    takeBytes, hb] at htake
  have hdata := congrArg Prod.fst htake
  dsimp only at hdata
  rw [← hdata]
  simp

/-- **A line that was read has a normal form.**  If what stands for the name is not the first
register, the entry is read again from the line that it is written as, with the same cycles, just if
the name leaves room for a blank in its column and, where fewer than three bytes were read, does not
look like a byte without its stars. -/
theorem reread_iff (h : ofLine line = .ok e) (hstart : startsRegisters e.mnemonic.toList = false) :
    e.Rereads ↔
      e.mnemonic.length < 32 ∧ (e.data.length < 3 → byte? e.mnemonic.toList = none) := by
  have hlegible := legible_of_ofLine h
  rw [← String.length_toList]
  constructor
  · rintro ⟨e', h', hagrees, -⟩
    constructor
    · by_contra hlong
      rw [ofLine_toLine_of_long hlegible hstart (by omega)] at h'
      cases h'
    · intro hroom
      cases hb : byte? e.mnemonic.toList with
      | none => rfl
      | some b => exact absurd hagrees.2.1 (data_of_byte hlegible hroom hb h')
  · rintro ⟨hfit, hbyte⟩
    exact rereads_of_name hlegible hstart hfit hbyte

/-- Signs, a mark, underscores, digits of another script and a second colon are read, and none of
them is written. -/
theorem reread_iff_generous :
    let line := " 0x_c000\t-f +5 **NOP = A:+1 X:0x2 Y:\u0663 P:2_4 SP:fd:9 PPU CYC:-1_0".toList
    let e : Entry :=
      { pc := 0xC000, data := [-15, 5], a := 1, x := 2, y := 3, flags := 0x24, sp := 0xFD,
        mnemonic := "NOP", cycles := -10 }
    ofLine line = .ok e ∧ startsRegisters e.mnemonic.toList = false ∧ e.Rereads := by
  intro line e
  have h : ofLine line = .ok e := by decide +kernel
  have hstart : startsRegisters e.mnemonic.toList = false := by decide +kernel
  exact ⟨h, hstart, (reread_iff h hstart).mpr ⟨by decide, by decide +kernel⟩⟩

/-- Three names that get in the way: one that looks like a byte without its star, the first register
where no name stands, and one that fills its column. -/
theorem names_not_reread :
    (∃ e, ofLine "C000 EA *AD A:01 X:02 Y:03 P:24 SP:FD CYC:7".toList = .ok e ∧ ¬ e.Rereads) ∧
    (∃ e, ofLine "C000 EA A:01 X:02 Y:03 P:24 SP:FD CYC:7".toList = .ok e ∧ ¬ e.Rereads) ∧
    ∃ e,
      ofLine "C000 EA NO-OPERATION-AT-ALL-IS-CARRIED-OUT A:01 X:02 Y:03 P:24 SP:FD CYC:7".toList =
        .ok e ∧ ¬ e.Rereads := by
  let named (name : String) : Entry :=
    { pc := 0xC000, data := [0xEA], a := 1, x := 2, y := 3, flags := 0x24, sp := 0xFD,
      mnemonic := name, cycles := 7 }
  refine ⟨⟨named "AD", by decide +kernel, ?_⟩, ⟨named "A:01", by decide +kernel, ?_⟩,
    ⟨named "NO-OPERATION-AT-ALL-IS-CARRIED-OUT", by decide +kernel, ?_⟩⟩
  · rintro ⟨e', h', hagrees, -⟩
    have hagain : ofLine (named "AD").toLine =
        .ok { named "A:01" with data := [0xEA, 0xAD] } := by decide +kernel
    rw [← Except.ok.inj (hagain.symm.trans h')] at hagrees
    exact absurd hagrees.2.1 (by decide)
  · rintro ⟨e', h', hagrees, -⟩
    have hagain : ofLine (named "A:01").toLine =
        .ok { named "A:01" with x := 1, y := 2, flags := 3, sp := 0x24 } := by decide +kernel
    rw [← Except.ok.inj (hagain.symm.trans h')] at hagrees
    exact absurd hagrees.2.2.2.1 (by decide)
  · rintro ⟨e', h', -⟩
    have hagain : (ofLine (named "NO-OPERATION-AT-ALL-IS-CARRIED-OUT").toLine).isOk = false := by
      decide +kernel
    rw [h'] at hagain
    cases hagain

end Famicom.Trace.Entry
