import Famicom.Text.Numeral
import Famicom.Text.Quoted

/-! # Faults of logs

Why a line of a log could not be read, and the text that reports it. -/

namespace Famicom.Trace

/-- Why a line of a log, or a part of it, could not be read. -/
inductive Fault where
  /-- A word is missing, or the value in it. -/
  | missingField
  | badNumeral (base : Numeral.Base) (text : List Char)
  | longNumeral (digits : Nat)
  | noInstructionBytes (line : List Char)
  | noRegisters (line : List Char)
  /-- An entry holds no instruction byte. -/
  | noData
deriving Repr, DecidableEq

/-- The greatest number of characters of a quoted numeral that a report shows. -/
def maxQuoted : Nat := 200

/-- The report of a fault. -/
def Fault.message : Fault → String
  | missingField => "list index out of range"
  | badNumeral base text =>
    "invalid literal for int() with base " ++ Numeral.decimal base.toNat ++ ": " ++
      String.ofList ((Text.quoted text).take maxQuoted)
  | longNumeral digits =>
    "Exceeds the limit (" ++ Numeral.decimal Numeral.maxDecimalDigits ++
      " digits) for integer string conversion: value has " ++ Numeral.decimal digits ++
      " digits; use sys.set_int_max_str_digits() to increase the limit"
  | noInstructionBytes line =>
    "no instruction bytes in trace line: " ++ String.ofList (Text.quoted line)
  | noRegisters line =>
    "no register snapshot in trace line: " ++ String.ofList (Text.quoted line)
  | noData => "tuple index out of range"

end Famicom.Trace
