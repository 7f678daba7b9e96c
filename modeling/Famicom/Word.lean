/-! # Bytes and words

The machine computes on bytes and addresses memory by words, both modular: a sum that leaves the
top of the range comes back at the bottom.  A word splits into a *page* (its high byte) and an
offset inside the page (its low byte); several addressing rules of the processor move the offset
and keep the page, which is what `nextInPage` says.  Numbers that come from outside are integers
of any size: `Byte.ofInt?` accepts those that are bytes, `BitVec.ofInt` reduces all others. -/

namespace Famicom

/-- Eight bits, with arithmetic modulo 256. -/
abbrev Byte := BitVec 8

/-- Sixteen bits, with arithmetic modulo 65536; each is an address of the processor. -/
abbrev Word := BitVec 16

/-- The byte with the value `n`, if there is one. -/
def Byte.ofInt? (n : Int) : Option Byte :=
  if 0 ≤ n ∧ n < 256 then some (BitVec.ofInt 8 n) else none

theorem Byte.ofInt?_toNat (b : Byte) : Byte.ofInt? b.toNat = some b := by
  have := b.isLt
  simp only [Byte.ofInt?]
  rw [if_pos (by omega)]
  simp

namespace Word

/-- The word with the given high and low bytes. -/
def ofBytes (high low : Byte) : Word := high ++ low

/-- The page of an address. -/
def high (w : Word) : Byte := w.extractLsb' 8 8

/-- The offset of an address inside its page. -/
def low (w : Word) : Byte := w.setWidth 8

/-- The address in page zero with offset `b`. -/
def zeroPage (b : Byte) : Word := ofBytes 0 b

/-- The cell that a stack pointer denotes: the stack is page one. -/
def stackCell (sp : Byte) : Word := ofBytes 1 sp

/-- The next address of the same page; after the last one comes the first. -/
def nextInPage (w : Word) : Word := ofBytes w.high (w.low + 1)

/-- Whether two addresses lie in different pages. -/
def crossesPage (v w : Word) : Bool := v.high != w.high

theorem toNat_ofBytes (h l : Byte) : (ofBytes h l).toNat = h.toNat * 256 + l.toNat := by
  have hl := l.isLt
  simp only [ofBytes, BitVec.toNat_append]
  rw [Nat.shiftLeft_eq, ← Nat.mul_comm, ← Nat.two_pow_add_eq_or_of_lt hl]

theorem toNat_high (w : Word) : w.high.toNat = w.toNat / 256 := by
  have := w.isLt
  simp only [high, BitVec.extractLsb'_toNat, Nat.shiftRight_eq_div_pow]
  omega

theorem toNat_low (w : Word) : w.low.toNat = w.toNat % 256 := by
  simp [low]

@[simp] theorem high_ofBytes (h l : Byte) : (ofBytes h l).high = h := by
  have := l.isLt
  apply BitVec.eq_of_toNat_eq
  rw [toNat_high, toNat_ofBytes]
  omega

@[simp] theorem low_ofBytes (h l : Byte) : (ofBytes h l).low = l := by
  have := l.isLt
  apply BitVec.eq_of_toNat_eq
  rw [toNat_low, toNat_ofBytes]
  omega

theorem ofBytes_high_low (w : Word) : ofBytes w.high w.low = w := by
  apply BitVec.eq_of_toNat_eq
  rw [toNat_ofBytes, toNat_high, toNat_low]
  omega

end Word

end Famicom
