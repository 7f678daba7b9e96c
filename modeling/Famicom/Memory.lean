import Famicom.Fault

/-! # Memories

A memory is a fixed number of byte cells, addressed from zero.  `get` and `set` work on addresses
that are known to be in range; `read`, `write` and `writeAll` take any integers and check them
first, the address before the data.  A refused write yields no memory, so it can have no effect;
`writeAll` therefore stores either all of its data or none. -/

namespace Famicom

/-- A memory of `size` cells. -/
@[ext] structure Memory (size : Nat) where
  cells : Vector Byte size
deriving Repr, DecidableEq

namespace Memory

variable {n : Nat}

/-- The memory whose cell `i` holds `f i`. -/
def ofFn (f : Fin n → Byte) : Memory n := ⟨Vector.ofFn f⟩

/-- The memory that holds zero everywhere. -/
def zero (n : Nat) : Memory n := ⟨Vector.replicate n 0⟩

/-- The byte in cell `i`. -/
def get (m : Memory n) (i : Fin n) : Byte := m.cells[i]

/-- The memory with `d` in cell `i`. -/
def set (m : Memory n) (i : Fin n) (d : Byte) : Memory n := ⟨m.cells.set i d⟩

@[simp, grind =] theorem get_ofFn (f : Fin n → Byte) (i : Fin n) : (ofFn f).get i = f i := by
  simp [get, ofFn]

@[simp, grind =] theorem get_zero (i : Fin n) : (zero n).get i = 0 := by
  simp [get, zero]

@[simp, grind =] theorem get_set_self (m : Memory n) (i : Fin n) (d : Byte) :
    (m.set i d).get i = d := by
  simp [get, set]

theorem get_set_ne (m : Memory n) {i j : Fin n} (d : Byte) (h : i ≠ j) :
    (m.set i d).get j = m.get j := by
  have : i.val ≠ j.val := fun hv => h (Fin.ext hv)
  simp [get, set, Vector.getElem_set_ne, this]

theorem ext_get {m m' : Memory n} (h : ∀ i, m.get i = m'.get i) : m = m' := by
  ext i hi
  have := h ⟨i, hi⟩
  simp only [get, Fin.getElem_fin] at this
  rw [this]

/-- Cell numbers are integers of 64 bits with a sign: they lie below this bound, and not below its
negative. -/
def cellNumberBound : Int := 0x8000000000000000

/-- The greatest number of cells for which there is room. -/
def maxSize : Int := 0x100000000

/-- Why a memory cannot have the given size, if so. -/
def sizeFault? (size : Int) : Option Fault :=
  if size < -cellNumberBound ∨ cellNumberBound ≤ size then some .sizeUnaddressable
  else if size < 0 then some .negativeSize
  else if maxSize < size then some .sizeUnavailable
  else none

/-- A new memory of the given size, holding zero everywhere. -/
def create (size : Int) : Except Fault (Memory size.toNat) :=
  match sizeFault? size with
  | some fault => .error fault
  | none => .ok (zero size.toNat)

/-- The cell with the given address, if there is one. -/
def cell? (n : Nat) (address : Int) : Option (Fin n) :=
  if h : 0 ≤ address ∧ address.toNat < n then some ⟨address.toNat, h.2⟩ else none

theorem cell?_eq_none_iff {address : Int} :
    cell? n address = none ↔ ¬ (0 ≤ address ∧ address < n) := by
  simp only [cell?]
  split <;> simp <;> omega

/-- The byte at an address. -/
def read (m : Memory n) (address : Int) : Except Fault Byte :=
  match cell? n address with
  | none => .error (.addressOutOfRange address)
  | some i => .ok (m.get i)

/-- The memory with a value stored at an address. -/
def write (m : Memory n) (address data : Int) : Except Fault (Memory n) :=
  match cell? n address, Byte.ofInt? data with
  | none, _ => .error (.addressOutOfRange address)
  | some _, none => .error .byteOutOfRange
  | some i, some d => .ok (m.set i d)

/-- The bytes stored one after the other from cell `i` on, as far as there are cells. -/
def place (m : Memory n) (i : Nat) : List Byte → Memory n
  | [] => m
  | d :: ds => (if h : i < n then m.set ⟨i, h⟩ d else m).place (i + 1) ds

/-- The memory with the bytes stored from an address on.  The first and the last address are
checked; no bytes fit anywhere. -/
def writeAll (m : Memory n) (address : Int) (data : List Byte) : Except Fault (Memory n) :=
  if data.isEmpty then .ok m
  else
    match cell? n address, cell? n (address + data.length - 1) with
    | none, _ => .error (.addressOutOfRange address)
    | some _, none => .error (.addressOutOfRange (address + data.length - 1))
    | some i, some _ => .ok (m.place i data)

theorem get_place_of_lt (m : Memory n) (i : Nat) (data : List Byte) {j : Fin n} (h : j.val < i) :
    (m.place i data).get j = m.get j := by
  induction data generalizing m i with
  | nil => rfl
  | cons d ds ih =>
    rw [place, ih _ _ (by omega)]
    split
    · exact get_set_ne _ _ (by intro hij; simp [← hij] at h)
    · rfl

theorem get_place (m : Memory n) (i : Nat) (data : List Byte) {j : Fin n} (h : i ≤ j.val) :
    (m.place i data).get j = data[j.val - i]?.getD (m.get j) := by
  induction data generalizing m i with
  | nil => simp [place]
  | cons d ds ih =>
    rw [place]
    by_cases hij : i = j.val
    · subst hij
      rw [get_place_of_lt _ _ _ (Nat.lt_succ_self _)]
      simp
    · have hs : j.val - i = (j.val - (i + 1)) + 1 := by omega
      rw [ih _ _ (by omega), hs, List.getElem?_cons_succ]
      split
      · rw [get_set_ne]
        intro hj
        exact hij (by simp [← hj])
      · rfl

end Memory

end Famicom
