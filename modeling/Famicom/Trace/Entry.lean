import Famicom.Trace.Fault

/-! # Trace entries

An entry tells of one instruction: the state of the processor before it, its bytes and its name.
It is written as a line of fixed columns (`toLine`); values that are too wide for their column push
the rest of the line to the right.  Two entries agree if they tell of the same state and the same
bytes: the name follows from the bytes, and cycles are not counted alike everywhere. -/

namespace Famicom.Trace

/-- One line of a trace. -/
structure Entry where
  pc : Int
  data : List Int
  a : Int
  x : Int
  y : Int
  flags : Int
  sp : Int
  mnemonic : String := ""
  cycles : Int := 0
deriving Repr, DecidableEq

namespace Entry

open Numeral (padded)

/-- Whether two entries tell of the same state and the same bytes. -/
def Agrees (e f : Entry) : Prop :=
  e.pc = f.pc ∧ e.data = f.data ∧ e.a = f.a ∧ e.x = f.x ∧ e.y = f.y ∧ e.flags = f.flags ∧
    e.sp = f.sp

instance (e f : Entry) : Decidable (e.Agrees f) :=
  inferInstanceAs (Decidable (_ ∧ _ ∧ _ ∧ _ ∧ _ ∧ _ ∧ _))

theorem agrees_refl (e : Entry) : e.Agrees e := by simp [Agrees]

theorem Agrees.symm {e f : Entry} (h : e.Agrees f) : f.Agrees e := by
  obtain ⟨h₁, h₂, h₃, h₄, h₅, h₆, h₇⟩ := h
  exact ⟨h₁.symm, h₂.symm, h₃.symm, h₄.symm, h₅.symm, h₆.symm, h₇.symm⟩

/-- The first instruction byte. -/
def opcode (e : Entry) : Except Fault Int :=
  match e.data with
  | [] => .error .noData
  | d :: _ => .ok d

/-- Blanks added on the right up to a width. -/
def column (width : Nat) (cs : List Char) : List Char :=
  cs ++ List.replicate (width - cs.length) ' '

/-- A value in at least two digits of base sixteen. -/
def byteText (n : Int) : List Char := padded .sixteen 2 n

/-- The instruction bytes, separated by blanks. -/
def dataText (e : Entry) : List Char :=
  [' '].intercalate (e.data.map byteText)

/-- A named register of a line. -/
def registerText (name : List Char) (n : Int) : List Char := name ++ ':' :: byteText n

/-- The entry as a line. -/
def toLine (e : Entry) : List Char :=
  padded .sixteen 4 e.pc ++ [' ', ' '] ++ column 10 e.dataText ++ column 32 e.mnemonic.toList ++
    [' '].intercalate
      [registerText ['A'] e.a, registerText ['X'] e.x, registerText ['Y'] e.y,
        registerText ['P'] e.flags, registerText ['S', 'P'] e.sp,
        ['C', 'Y', 'C', ':'] ++ padded .ten 0 e.cycles]

/-- The entry as a line. -/
def text (e : Entry) : String := String.ofList e.toLine

/-- The entry with all its parts named. -/
def describe (e : Entry) : String :=
  String.ofList <|
    "TraceEntry(pc=".toList ++ padded .sixteen 4 e.pc ++
      ", data=[".toList ++ e.dataText ++ "], mnemonic=".toList ++ e.mnemonic.toList ++
      ", a=".toList ++ byteText e.a ++ ", x=".toList ++ byteText e.x ++
      ", y=".toList ++ byteText e.y ++ ", flags=".toList ++ byteText e.flags ++
      ", sp=".toList ++ byteText e.sp ++ ", cycles=".toList ++ padded .ten 0 e.cycles ++ [')']

end Entry

end Famicom.Trace
