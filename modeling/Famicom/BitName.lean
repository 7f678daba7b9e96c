/-! # Named bits

Some bytes are collections of bits with a name each.  A `BitName` is such a name with the weight
of its bit, and `namesIn` tells which of them are set in a number.  The number may be negative:
its bits are then those of two's complement, without end to the left. -/

namespace Famicom

/-- The name of a bit, and the power of two that the bit weighs. -/
structure BitName where
  name : String
  weight : Nat
deriving Repr, DecidableEq

/-- Whether the bit is set in `value`. -/
def BitName.setIn (b : BitName) (value : Int) : Bool :=
  value / b.weight % 2 == 1

/-- The names of the bits that are set in `value`, in the order of the list. -/
def namesIn (bits : List BitName) (value : Int) : List String :=
  (bits.filter (·.setIn value)).map (·.name)

/-- The names given to the bits of a byte, the lowest first. -/
def BitName.ofLowest (names : List String) : List BitName :=
  names.zipIdx.map fun (name, i) => ⟨name, 1 <<< i⟩

end Famicom
