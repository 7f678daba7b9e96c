import Famicom.Proofs.Trace.Line
import Famicom.Proofs.Trace.Recording
import Famicom.Trace.Divergence
import Famicom.Trace.Log

/-! # Traces are read as they were written

A log is read by its rows (`readLog_of_rows`), and those of a trace are the words of its lines
(`flatMap_rows`): neither the kind of the line ends nor lines of blanks between the others make a
difference to them.

What a journal collects from processors are entries of instructions
(`Journal.Collected.ofInstruction`), which can be read if there are not too many cycles.  The main
result is `Journal.readLog_dump`: the entries of a journal are read again from its text. -/

namespace Famicom

open Text

namespace Trace

variable {es : List Entry} {text : List Char}

/-! ### Reading a log -/

theorem map_words_filter (ls : List (List Char)) :
    (ls.filter fun l => !l.all isBlank).map words = ls.flatMap row := by
  induction ls with
  | nil => rfl
  | cons l ls ih =>
      rw [List.flatMap_cons, ← ih]
      cases hl : l.all isBlank with
      | true => rw [List.filter_cons_of_neg (by rw [hl]; decide), row_of_blank hl, List.nil_append]
      | false =>
          have hne : words l ≠ [] := by
            rw [Ne, words_eq_nil_iff, hl]
            decide
          rw [List.filter_cons_of_pos (by rw [hl]; rfl), row, if_neg hne]
          rfl

/-- The rows of a text are the words of the lines that are read. -/
theorem map_words_logLines (text : List Char) : (logLines text).map words = rows text := by
  rw [rows_eq]
  exact map_words_filter _

theorem mapM_ofLine (h : ∀ e ∈ es, e.Loadable) {ls : List (List Char)}
    (hw : ls.map words = es.map Entry.wordList) : ls.mapM Entry.ofLine = .ok es := by
  induction es generalizing ls with
  | nil =>
      cases ls with
      | nil => rfl
      | cons l ls => cases hw
  | cons e es ih =>
      cases ls with
      | nil => cases hw
      | cons l ls =>
          obtain ⟨he, hes⟩ := List.forall_mem_cons.mp h
          obtain ⟨hl, hls⟩ := List.cons.inj hw
          rw [List.mapM_cons, bind_of_ok (Entry.ofLine_of_words he hl),
            bind_of_ok (ih hes hls)]
          rfl

/-- A log is read by its rows. -/
theorem readLog_of_rows (h : ∀ e ∈ es, e.Loadable) (hr : rows text = es.map Entry.wordList) :
    readLog text = .ok es :=
  mapM_ofLine h ((map_words_logLines text).trans hr)

/-- Lines of blanks between the lines of entries add no rows. -/
theorem flatMap_rows (h : ∀ e ∈ es, e.Loadable) {ls : List (List Char)}
    (hls : (ls.filter fun l => !l.all isBlank) = es.map Entry.toLine) :
    ls.flatMap rows = es.map Entry.wordList := by
  induction ls generalizing es with
  | nil =>
      cases es with
      | nil => rfl
      | cons e es => cases hls
  | cons l ls ih =>
      rw [List.flatMap_cons]
      cases hl : l.all isBlank with
      | true =>
          rw [List.filter_cons_of_neg (by rw [hl]; decide)] at hls
          rw [rows_of_blank hl, List.nil_append, ih h hls]
      | false =>
          rw [List.filter_cons_of_pos (by rw [hl]; rfl)] at hls
          cases es with
          | nil => cases hls
          | cons e es =>
              obtain ⟨he, hes⟩ := List.forall_mem_cons.mp h
              obtain ⟨rfl, hrest⟩ := List.cons.inj hls
              rw [Entry.rows_toLine he, ih hes hrest]
              rfl

theorem Divergence.after_self (es : List Entry) (line : Nat) : after line es es = none := by
  induction es generalizing line with
  | nil => rfl
  | cons e es ih => rw [after, if_pos e.agrees_refl, ih]

namespace Journal

/-! ### What a journal can collect -/

/-- The journals that an observer of processors comes to be, on buses of any kind: it is told of
instructions and of other programs, and may forget all entries in between. -/
inductive Collected : Journal → Prop where
  | empty : Collected {}
  | step {j : Journal} {β : Type} [Bus β] (cpu : Cpu) (bus : β) (h : Collected j) :
    Collected (((Cpu.step.run cpu bus).stepNotices cpu).foldl observe j)
  | other {j : Journal} {α β : Type} [Bus β] (p : Program α) (cpu : Cpu) (bus : β)
    (h : Collected j) : Collected ((p.run cpu bus).fetchNotices.foldl observe j)
  | clear {j : Journal} (h : Collected j) : Collected j.clear

/-- Only the end of an instruction files an entry. -/
theorem entries_foldl_observe {ns : List Notice} (h : ∀ n, .completed n ∉ ns) (j : Journal) :
    (ns.foldl observe j).entries = j.entries := by
  induction ns generalizing j with
  | nil => rfl
  | cons notice ns ih =>
      have hobserve : (j.observe notice).entries = j.entries := by
        cases notice with
        | began c => rfl
        | fetched d => rfl
        | completed n => exact absurd (by simp) (h n)
      rw [List.foldl_cons, ih fun n hn => h n (List.mem_cons_of_mem _ hn), hobserve]

theorem ofInstruction_noted {c : Cpu} {opcode : Byte} {rest : List Byte} {i : Instruction}
    (hd : Instruction.decode opcode = some i)
    (hsize : rest.length + 1 = i.mode.instructionSize) :
    (noted c opcode rest).OfInstruction where
  data_ne_nil := List.cons_ne_nil _ _
  data_length := by
    have hle := i.mode.instructionSize_le
    rw [← hsize] at hle
    rw [noted, List.length_map]
    exact hle
  data_bytes := by
    intro d hd
    obtain ⟨b, -, rfl⟩ := List.mem_map.mp hd
    have := b.isLt
    omega
  named := ⟨i.mnemonic, by rw [noted, nameOf_toNat, hd]; rfl⟩

theorem result_of_completed_mem {β : Type} {o : Outcome (Option Nat) β} {c : Cpu} {n : Nat}
    (h : .completed n ∈ o.stepNotices c) : o.result = .ok (some n) := by
  have hcompletion : .completed n ∈ o.completion := by
    simpa [Outcome.stepNotices, Outcome.fetchNotices] using h
  unfold Outcome.completion at hcompletion
  split at hcompletion
  · rename_i k hr
    cases List.mem_singleton.mp hcompletion
    exact hr
  · cases hcompletion

/-- A journal collects entries of instructions only. -/
theorem Collected.ofInstruction {j : Journal} (h : j.Collected) :
    ∀ e ∈ j.entries.toList, e.OfInstruction := by
  induction h with
  | empty => exact fun e he => by cases he
  | @step j β _ cpu bus h ih =>
      by_cases hr : ∃ n, (Cpu.step.run cpu bus).result = .ok (some n)
      · obtain ⟨n, hr⟩ := hr
        obtain ⟨opcode, i, rest, hd, hf, hsize⟩ := Cpu.fetched_of_completed hr
        rw [observe_completed _ hf hr]
        intro e he
        rw [Array.toList_push] at he
        rcases List.mem_append.mp he with he | he
        · exact ih e he
        · rw [List.mem_singleton.mp he]
          exact ofInstruction_noted hd hsize
      · rw [entries_foldl_observe fun n hn => hr ⟨n, result_of_completed_mem hn⟩]
        exact ih
  | other p cpu bus h ih =>
      rw [entries_foldl_observe fun n hn => by simp [Outcome.fetchNotices] at hn]
      exact ih
  | clear h ih => exact fun e he => by cases he

/-! ### The dump of a journal -/

theorem toList_dump (j : Journal) :
    j.dump.toList = ['\n'].intercalate (j.entries.toList.map Entry.toLine) := by
  have hlines : (j.entries.toList.map Entry.text).map String.toList =
      j.entries.toList.map Entry.toLine := by
    rw [List.map_map]
    refine List.map_congr_left fun e _ => ?_
    rw [Function.comp_apply, Entry.text, String.toList_ofList]
  rw [dump, String.toList_intercalate, hlines]
  rfl

/-- **A trace is read as it was written.**  The entries of a journal may be any that can be read, or
those that it has collected from processors.  The text of the journal is read as these entries, with
their names and cycles, and so no divergence is found.  The same holds of the text with other line
ends and with lines of blanks anywhere between its lines. -/
theorem readLog_dump (j : Journal)
    (h : (∀ e ∈ j.entries.toList, e.Loadable) ∨
      (j.Collected ∧ ∀ e ∈ j.entries.toList,
        e.cycles.natAbs < 10 ^ Numeral.maxDecimalDigits)) :
    readLog j.dump.toList = .ok j.entries.toList ∧
      Divergence.between j.entries.toList j.entries.toList = none ∧
      ∀ (nl : LineEnd) (ls : List (List Char)),
        (ls.filter fun l => !l.all isBlank) = j.entries.toList.map Entry.toLine →
          readLog (nl.chars.intercalate ls) = .ok j.entries.toList := by
  have hloadable : ∀ e ∈ j.entries.toList, e.Loadable := by
    rcases h with hl | ⟨hc, hcycles⟩
    · exact hl
    · exact fun e he => ⟨hc.ofInstruction e he, hcycles e he⟩
  have hread : ∀ (nl : LineEnd) (ls : List (List Char)),
      (ls.filter fun l => !l.all isBlank) = j.entries.toList.map Entry.toLine →
        readLog (nl.chars.intercalate ls) = .ok j.entries.toList := by
    intro nl ls hls
    refine readLog_of_rows hloadable ?_
    rw [rows_intercalate, flatMap_rows hloadable hls]
  refine ⟨?_, Divergence.after_self _ 0, hread⟩
  rw [toList_dump]
  refine hread .feed _ (List.filter_eq_self.mpr ?_)
  intro l hl
  obtain ⟨e, he, rfl⟩ := List.mem_map.mp hl
  rw [Entry.all_isBlank_toLine (hloadable e he)]
  rfl

/-- Values that are wider than their columns, and a name that begins like a byte. -/
theorem readLog_dump_adc :
    let e : Entry :=
      { pc := 0x1C000, data := [0x6D, 0xAD, 0xDC], a := -1, x := 0x100, y := 0, flags := 0x24,
        sp := 0xFD, mnemonic := "ADC", cycles := 7 }
    e.Loadable ∧ readLog (dump ⟨#[e, e], none⟩).toList = .ok [e, e] := by
  intro e
  have hcycles : e.cycles.natAbs < 10 ^ Numeral.maxDecimalDigits := by
    have hseven : e.cycles.natAbs < 10 ^ 1 := by decide
    exact Nat.lt_of_lt_of_le hseven (Nat.pow_le_pow_right (by decide) (by decide))
  have he : e.Loadable := ⟨⟨by decide, by decide, by decide, ⟨.adc, rfl⟩⟩, hcycles⟩
  have hall : ∀ e' ∈ (#[e, e] : Array Entry).toList, e'.Loadable := by
    intro e' he'
    simp only [List.mem_cons, List.not_mem_nil, or_false, or_self] at he'
    rw [he']
    exact he
  exact ⟨he, (readLog_dump ⟨#[e, e], none⟩ (Or.inl hall)).1⟩

end Journal

end Trace

end Famicom
