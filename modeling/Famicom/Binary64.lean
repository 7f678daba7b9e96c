/-! # Floating-point numbers

A floating-point number of 64 bits is kept as its encoding.  Many encodings stand for no number at
all; a sum that begins with one of them is that same encoding, marked as quiet.  All other sums are
those of `Float`.

The number nearest to a quotient of two integers is found in exact arithmetic: the quotient is
scaled by a power of two to an integer part of 53 bits, or of fewer where the exponent has reached
its least value; the rest is rounded to nearest, and a tie goes to the even neighbour.  The encoding
is such that a mantissa rounded up to the next power of two carries into the exponent. -/

namespace Famicom

/-- A floating-point number of 64 bits. -/
structure Binary64 where
  encoding : BitVec 64
deriving Repr, DecidableEq

namespace Binary64

/-- The number as one to calculate with. -/
def toFloat (x : Binary64) : Float := Float.ofBits (UInt64.ofBitVec x.encoding)

/-- A calculated number. -/
def ofFloat (x : Float) : Binary64 := ⟨x.toBits.toBitVec⟩

/-- The bit above the mantissa of an encoding. -/
def mantissaBound : Nat := 0x10000000000000

/-- The bit of the sign of an encoding. -/
def signBit : Nat := 0x8000000000000000

/-- The encoding of infinity; above it, but for the sign, are those that stand for no number. -/
def infinity : Nat := 0x7FF * mantissaBound

/-- The encoding stands for no number. -/
def IsNaN (x : Binary64) : Prop := infinity < x.encoding.toNat % signBit

instance (x : Binary64) : Decidable x.IsNaN := inferInstanceAs (Decidable (_ < _))

/-- The encoding marked as one that may be calculated with further. -/
def quiet (x : Binary64) : Binary64 := ⟨x.encoding ||| 0x8000000000000⟩

/-- The number later by a number of seconds. -/
def later (x : Binary64) (seconds : Float) : Binary64 :=
  if x.IsNaN then x.quiet else ofFloat (x.toFloat + seconds)

/-! ### Rounding -/

/-- The least exponent of a unit in the last place. -/
def leastExponent : Int := -1074

/-- A quotient of natural numbers rounded to the nearest integer, a tie to the even one. -/
def roundDiv (num den : Nat) : Nat :=
  let q := num / den
  let r := num % den
  if den < 2 * r ∨ (2 * r = den ∧ q % 2 = 1) then q + 1 else q

/-- The numerator and the denominator of `num / den * 2 ^ (-e)`. -/
def scale (num den : Nat) (e : Int) : Nat × Nat :=
  if 0 ≤ e then (num, den <<< e.toNat) else (num <<< (-e).toNat, den)

/-- The exponent for which the scaled quotient has 53 bits before the point. -/
def exponentOf (num den : Nat) : Int :=
  let e : Int := (num.log2 : Int) - den.log2 - 52
  let (n, d) := scale num den e
  max leastExponent (if n / d < mantissaBound then e - 1 else e)

/-- The encoding of the number nearest to a quotient, without its sign; nothing if the quotient is
beyond the greatest number. -/
def magnitude? (num den : Nat) : Option Nat :=
  if num = 0 then some 0
  else
    let e := exponentOf num den
    let (n, d) := scale num den e
    let m := roundDiv n d
    let encoded := if m < mantissaBound then m else (e - leastExponent).toNat * mantissaBound + m
    if encoded < infinity then some encoded else none

/-- The number nearest to a quotient; nothing if the quotient is beyond the greatest number. -/
def ofQuotient? (num : Int) (den : Nat) : Option Binary64 :=
  (magnitude? num.natAbs den).map fun m =>
    ⟨BitVec.ofNat 64 (if num < 0 then signBit + m else m)⟩

/-- The number nearest to an integer. -/
def ofInt? (n : Int) : Option Binary64 := ofQuotient? n 1

end Binary64

end Famicom
