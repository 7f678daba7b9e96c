/-! # Latches

A 16-bit value is given to the picture unit by two byte writes, the high byte first.  The toggle of
the latch tells which half the next write sets.  The value is an integer: a caller may write more
than a byte, and then the bits above the half that is set are those of the data. -/

namespace Famicom

/-- A value written in two halves. -/
structure Latch where
  value : Int := 0
  /-- Whether the next write sets the low byte. -/
  toggle : Bool := false
deriving Repr, DecidableEq

namespace Latch

/-- The value with `data` as its low byte: the high byte of `value` is kept, all bits of `data`
are added to it. -/
def withLow (value data : Int) : Int :=
  data / 65536 * 65536 + ((value / 256 % 256 * 256).toNat ||| (data % 65536).toNat : Nat)

/-- The value with `data` as its high byte: the low byte of `value` is kept. -/
def withHigh (value data : Int) : Int :=
  data * 256 + value % 256

/-- Sets the half whose turn it is. -/
def write (l : Latch) (data : Int) : Latch where
  value := if l.toggle then withLow l.value data else withHigh l.value data
  toggle := !l.toggle

/-- Makes the next write set the high byte. -/
def restart (l : Latch) : Latch := { l with toggle := false }

/-- A byte takes the place of the low byte. -/
theorem withLow_of_byte (value : Int) {data : Int} (h₀ : 0 ≤ data) (h₁ : data < 256) :
    withLow value data = value / 256 % 256 * 256 + data := by
  have hd : data / 65536 = 0 := by omega
  have hm : data % 65536 = data := by omega
  have hh : (value / 256 % 256 * 256).toNat = 2 ^ 8 * (value / 256 % 256).toNat := by omega
  simp only [withLow, hd, hm, hh]
  rw [← Nat.two_pow_add_eq_or_of_lt (by omega)]
  omega

/-- Two bytes written from the start of a round make up the value. -/
theorem value_write_write {l : Latch} (h : l.toggle = false) {high low : Int}
    (hh : 0 ≤ high ∧ high < 256) (hl : 0 ≤ low ∧ low < 256) :
    ((l.write high).write low).value = high * 256 + low := by
  simp only [write, h, Bool.not_false, if_true, Bool.false_eq_true, if_false]
  rw [withLow_of_byte _ hl.1 hl.2, withHigh]
  omega

end Latch

end Famicom
