import Famicom.Trace.Entry

/-! # Where two traces part

Two traces are compared line by line, and the first line on which they do not agree is reported.
If one of them is the beginning of the other, that is the line where it ends. -/

namespace Famicom.Trace

/-- The first line on which two traces differ; the line is missing where a trace has ended. -/
structure Divergence where
  /-- The number of lines on which they agree. -/
  line : Nat
  expected : Option Entry
  actual : Option Entry
deriving Repr, DecidableEq

namespace Divergence

/-- The divergence of the traces after `line` lines on which they agree. -/
def after (line : Nat) : List Entry → List Entry → Option Divergence
  | [], [] => none
  | [], e :: _ => some ⟨line, some e, none⟩
  | a :: _, [] => some ⟨line, none, some a⟩
  | a :: actual, e :: expected =>
    if a.Agrees e then after (line + 1) actual expected
    else some ⟨line, some e, some a⟩

/-- The divergence of two traces, if they differ. -/
def between (actual expected : List Entry) : Option Divergence := after 0 actual expected

/-- An entry in a report; a missing one is named so. -/
def sideText : Option Entry → String
  | none => "None"
  | some e => e.text

/-- The report of a divergence. -/
def text (d : Divergence) : String :=
  "line " ++ Numeral.decimal (d.line + 1) ++ ":\n  expected: " ++ sideText d.expected ++
    "\n  actual:   " ++ sideText d.actual

end Divergence

end Famicom.Trace
