import Famicom.Text.Blank
import Famicom.Trace.Entry

/-! # Lines of a log

A line of a log begins with the address of an instruction and its bytes, of which it has at least
one and at most three; after them come the name of the instruction, which may have stars before it,
and any text.  The registers are five words, of which the first is the first to begin with `A:`;
the cycles are in the last word, if that begins with `CYC:`.  What counts of such a word is the part
after its first colon, up to the next. -/

namespace Famicom.Trace

namespace Entry

/-- Reads a numeral. -/
def numeral (base : Numeral.Base) (text : List Char) : Except Fault Int :=
  match Numeral.read base text with
  | .ok n => .ok n
  | .error .malformed => .error (.badNumeral base text)
  | .error (.tooLong digits) => .error (.longNumeral digits)

/-- The value of a word of two characters that is a numeral of base sixteen. -/
def byte? (word : List Char) : Option Int :=
  if word.length = 2 then (Numeral.read .sixteen word).toOption else none

/-- The greatest number of bytes of an instruction. -/
def maxBytes : Nat := 3

/-- The values of the words that are bytes, at most `n` from the first word on, and the words after
them. -/
def takeBytes : Nat → List (List Char) → List Int × List (List Char)
  | n + 1, word :: words =>
    match byte? word with
    | some b =>
      let (bs, rest) := takeBytes n words
      (b :: bs, rest)
    | none => ([], word :: words)
  | _, words => ([], words)

/-- The part of a word between its first colon and the next. -/
def fieldText (word : List Char) : Except Fault (List Char) :=
  match word.dropWhile (· ≠ ':') with
  | [] => .error .missingField
  | _ :: rest => .ok (rest.takeWhile (· ≠ ':'))

/-- The value of a word with a colon. -/
def fieldValue (base : Numeral.Base) (word : List Char) : Except Fault Int :=
  fieldText word >>= numeral base

/-- Whether a word is the first of the registers. -/
def startsRegisters (word : List Char) : Bool := ['A', ':'].isPrefixOf word

/-- Whether a word tells the cycles. -/
def tellsCycles (word : List Char) : Bool := ['C', 'Y', 'C', ':'].isPrefixOf word

/-- The cycles in the last word of a line, or zero if it does not tell them. -/
def cyclesIn (word : List Char) : Except Fault Int :=
  if tellsCycles word then fieldValue .ten word else .ok 0

/-- Reads a line. -/
def ofLine (line : List Char) : Except Fault Entry := do
  match Text.words line with
  | [] => throw .missingField
  | first :: words =>
    let pc ← numeral .sixteen first
    let (data, rest) := takeBytes maxBytes words
    if data.isEmpty then
      throw (.noInstructionBytes line)
    match rest.dropWhile (!startsRegisters ·) with
    | a :: x :: y :: flags :: sp :: more =>
      return {
        pc, data
        a := ← fieldValue .sixteen a
        x := ← fieldValue .sixteen x
        y := ← fieldValue .sixteen y
        flags := ← fieldValue .sixteen flags
        sp := ← fieldValue .sixteen sp
        mnemonic := String.ofList ((rest.head?.getD []).dropWhile (· = '*'))
        cycles := ← cyclesIn ((sp :: more).getLast (List.cons_ne_nil _ _)) }
    | _ => throw (.noRegisters line)

end Entry

end Famicom.Trace
