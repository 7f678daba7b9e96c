import Famicom.Text.DecimalDigit

/-! # Numerals

Integers are written in base ten or in base sixteen.  Writing is plain: a minus sign for negative
numbers, upper-case digits, and for fixed columns zeros between the sign and the digits
(`padded`).  Reading (`read`) is more generous: a sign of either kind, in base sixteen an optional
`0x`, digits of either case or of any script, and single underscores between digits.  A numeral
of base ten may have at most 4300 digits, since its value takes quadratic time to compute. -/

namespace Famicom.Numeral

open Famicom.Text

/-- The bases in which the program reads and writes integers. -/
inductive Base where
  | ten
  | sixteen
deriving Repr, DecidableEq

/-- The number that a base stands for. -/
def Base.toNat : Base → Nat
  | ten => 10
  | sixteen => 16

theorem Base.one_lt_toNat (b : Base) : 1 < b.toNat := by cases b <;> decide

/-! ### Writing -/

/-- The character for a digit value below sixteen. -/
def digitChar (d : Nat) : Char :=
  if d < 10 then Char.ofNat (d + 48) else Char.ofNat (d + 55)

/-- The digits of `n`, the most significant first; zero has one digit. -/
def digits (base : Base) (n : Nat) : List Char :=
  go n []
where
  /-- Puts the digits of `n` in front of those already written. -/
  go (n : Nat) (written : List Char) : List Char :=
    if n < base.toNat then digitChar n :: written
    else go (n / base.toNat) (digitChar (n % base.toNat) :: written)
  termination_by n
  decreasing_by
    have := base.one_lt_toNat
    exact Nat.div_lt_self (by omega) this

/-- The sign of a written integer: nothing for numbers that are not negative. -/
def sign (n : Int) : List Char := if n < 0 then ['-'] else []

/-- The integer in at least `width` characters, the sign included, filled up with zeros. -/
def padded (base : Base) (width : Nat) (n : Int) : List Char :=
  let ds := digits base n.natAbs
  sign n ++ List.replicate (width - (sign n).length - ds.length) '0' ++ ds

/-- The integer in base ten with no more characters than it needs. -/
def decimal (n : Int) : String := String.ofList (padded .ten 0 n)

/-- The integer in base sixteen, in at least `width` characters. -/
def hexadecimal (width : Nat) (n : Int) : String := String.ofList (padded .sixteen width n)

/-! ### Reading -/

/-- Why a text is no numeral. -/
inductive Fault where
  | malformed
  | tooLong (digits : Nat)
deriving Repr, DecidableEq

/-- The greatest number of digits that a numeral of base ten may have. -/
def maxDecimalDigits : Nat := 4300

/-- The value of a character as a digit of the base: a decimal digit of any script, or a Latin
letter from `a` on. -/
def digitValue? (base : Base) (c : Char) : Option Nat :=
  let value :=
    match decimalDigit? c with
    | some d => some d
    | none =>
      if 'a' ≤ c ∧ c ≤ 'z' then some (c.toNat - 87)
      else if 'A' ≤ c ∧ c ≤ 'Z' then some (c.toNat - 55)
      else none
  value.filter (· < base.toNat)

/-- A run of digits: its value, the number of its digits and the text after it. -/
structure Run where
  value : Nat
  count : Nat
  rest : List Char
deriving Repr, DecidableEq

/-- Reads the longest run of digits and underscores.  There is no run if an underscore stands
anywhere but between two digits, or if there is no digit. -/
def run? (base : Base) (afterDigit : Bool) (value count : Nat) : List Char → Option Run
  | [] => if afterDigit then some ⟨value, count, []⟩ else none
  | c :: cs =>
    if c = '_' then
      if afterDigit then run? base false value count cs else none
    else
      match digitValue? base c with
      | some d => run? base true (value * base.toNat + d) (count + 1) cs
      | none => if afterDigit then some ⟨value, count, c :: cs⟩ else none

/-- Takes the mark of base sixteen off, `0x` with a zero of any script, and with it one
underscore. -/
def dropMark (base : Base) : List Char → List Char
  | zero :: x :: cs =>
    if base = .sixteen ∧ decimalDigit? zero = some 0 ∧ (x = 'x' ∨ x = 'X') then
      match cs with
      | '_' :: cs => cs
      | cs => cs
    else zero :: x :: cs
  | cs => cs

/-- Reads an unsigned numeral that takes up the whole text.  A numeral that is too long is refused
as such before the text after it is looked at. -/
def readUnsigned (base : Base) (cs : List Char) : Except Fault Nat :=
  match run? base false 0 0 (dropMark base cs) with
  | none => .error .malformed
  | some run =>
    if base = .ten ∧ maxDecimalDigits < run.count then .error (.tooLong run.count)
    else if run.rest = [] then .ok run.value
    else .error .malformed

/-- Reads an integer that takes up the whole text. -/
def read (base : Base) : List Char → Except Fault Int
  | '-' :: cs => (readUnsigned base cs).map fun n => -(n : Int)
  | '+' :: cs => (readUnsigned base cs).map fun n => (n : Int)
  | cs => (readUnsigned base cs).map fun n => (n : Int)

end Famicom.Numeral
