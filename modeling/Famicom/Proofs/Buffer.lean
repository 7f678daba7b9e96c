import Famicom.Memory

/-! # Buffers

Where the parts of the machine keep their bytes, they keep them in buffers.  A buffer is less strict
than a memory.  Cells are counted from its end if their number is below zero, and a slice of it may
be replaced by something of another length, so that it can grow and shrink; of what is put into a
cell it checks that it is a byte.

A memory is a buffer with a fixed length whose users check the number of a cell themselves
(`Memory.buffer`).  As long as they do, a buffer has nothing to object to (`Memory.get_buffer`,
`Memory.set_buffer`), and bytes stored one after the other come to the same as a slice replaced
(`Memory.buffer_place`).

What is done with a part of the machine is an *action* on its state.  An action may fail, and what
it has changed before that stays changed. -/

namespace Famicom

/-! ### Cells and slices -/

/-- A row of cells, which hold integers. -/
structure Buffer where
  cells : List Int
deriving Repr, DecidableEq

namespace Buffer

/-- The buffer that holds some bytes. -/
def ofBytes (ds : List Byte) : Buffer := ⟨ds.map fun d => (d.toNat : Int)⟩

/-- The buffer that holds zero everywhere. -/
def zero (n : Nat) : Buffer := ⟨List.replicate n 0⟩

variable (b : Buffer)

def length : Nat := b.cells.length

/-- The place of a cell, counted from the end if its number is below zero. -/
def place (i : Int) : Int := if i < 0 then i + b.length else i

/-- The cell with the given number, if there is one. -/
def cell? (i : Int) : Option (Fin b.cells.length) :=
  if h : 0 ≤ b.place i ∧ (b.place i).toNat < b.cells.length then some ⟨(b.place i).toNat, h.2⟩
  else none

/-- The number of a cell can be expressed. -/
def Addressable (i : Int) : Prop := -Memory.cellNumberBound ≤ i ∧ i < Memory.cellNumberBound

instance : DecidablePred Addressable := fun _ => inferInstanceAs (Decidable (_ ∧ _))

/-- The fault of a cell that does not exist. -/
def cellFault (i : Int) : Fault :=
  if Addressable i then .pixelOutOfRange else .pixelUnaddressable

/-- The number in a cell. -/
def get (i : Int) : Except Fault Int :=
  match b.cell? i with
  | some k => .ok b.cells[k]
  | none => .error (cellFault i)

/-- The buffer with a number in a cell, if the number is a byte.  That is checked before it is known
whether there is such a cell. -/
def set (i d : Int) : Except Fault Buffer :=
  match b.cell? i, decide (0 ≤ d ∧ d < 0x100) with
  | some k, true => .ok ⟨b.cells.set k d⟩
  | none, true => .error (cellFault i)
  | some _, false => .error .byteOutOfRange
  | none, false => .error (if Addressable i then .byteOutOfRange else .pixelUnaddressable)

/-- Where a slice begins or ends: a place outside the buffer is moved to the nearer end. -/
def sliceEnd (i : Int) : Nat := min (b.place i).toNat b.length

/-- The buffer with the slice between two places replaced by another buffer.  A slice that would end
before it begins is empty. -/
def replace (i j : Int) (c : Buffer) : Buffer :=
  ⟨b.cells.take (b.sliceEnd i) ++ c.cells ++ b.cells.drop (max (b.sliceEnd i) (b.sliceEnd j))⟩

/-- A slice replaced by something longer makes the buffer longer. -/
example : (ofBytes [1, 2, 3]).replace (-1) 7 (ofBytes [4, 5]) = ofBytes [1, 2, 4, 5] := by decide

variable {b} {k : Nat}

theorem cell?_of_lt (h : k < b.cells.length) : b.cell? k = some ⟨k, h⟩ := by
  have hplace : b.place k = k := if_neg (by omega)
  unfold cell?
  simp only [hplace]
  rw [dif_pos ⟨by omega, by omega⟩]
  rfl

theorem get_of_lt (h : k < b.cells.length) : b.get k = .ok b.cells[k] := by
  rw [get, cell?_of_lt h]
  rfl

/-- A cell that exists takes a byte. -/
theorem set_of_lt (h : k < b.cells.length) (d : Byte) :
    b.set k d.toNat = .ok ⟨b.cells.set k d.toNat⟩ := by
  have hlt := d.isLt
  have hbyte : decide (0 ≤ (d.toNat : Int) ∧ (d.toNat : Int) < 0x100) = true :=
    decide_eq_true (by omega)
  rw [set, cell?_of_lt h, hbyte]

/-- It takes nothing else. -/
theorem set_of_not_byte (h : k < b.cells.length) {d : Int} (hd : ¬ (0 ≤ d ∧ d < 0x100)) :
    b.set k d = .error .byteOutOfRange := by
  rw [set, cell?_of_lt h, decide_eq_false hd]

theorem replace_all (b c : Buffer) : b.replace 0 b.length c = c := by
  have hbegin : b.sliceEnd 0 = 0 := Nat.zero_min _
  have hend : b.sliceEnd b.length = b.cells.length := by
    unfold sliceEnd place length
    omega
  rw [replace, hbegin, hend, Nat.zero_max, List.drop_length, List.append_nil]
  rfl

end Buffer

/-! ### The buffer of a memory -/

namespace Memory

variable {n : Nat} (m : Memory n)

/-- The buffer that holds the bytes of a memory. -/
def buffer : Buffer := .ofBytes m.cells.toList

theorem length_buffer : m.buffer.cells.length = n := by
  rw [buffer, Buffer.ofBytes, List.length_map, Vector.length_toList]

theorem lt_length_buffer (i : Fin n) : i.val < m.buffer.cells.length := by
  rw [length_buffer]
  exact i.isLt

theorem getElem?_buffer (i : Fin n) : m.buffer.cells[i.val]? = some ((m.get i).toNat : Int) := by
  have hi : i.val < m.cells.toList.length := by
    rw [Vector.length_toList]
    exact i.isLt
  rw [buffer, Buffer.ofBytes, List.getElem?_map, List.getElem?_eq_getElem hi, Vector.getElem_toList]
  rfl

/-- The buffer of a memory is known cell by cell. -/
theorem buffer_eq {l : List Int} (hl : l.length = n)
    (h : ∀ i : Fin n, l[i.val]? = some ((m.get i).toNat : Int)) : m.buffer = ⟨l⟩ := by
  rw [← show (⟨m.buffer.cells⟩ : Buffer) = m.buffer from rfl, Buffer.mk.injEq]
  refine List.ext_getElem? fun k => ?_
  by_cases hk : k < n
  · rw [m.getElem?_buffer ⟨k, hk⟩, h ⟨k, hk⟩]
  · rw [List.getElem?_eq_none (by rw [length_buffer]; omega), List.getElem?_eq_none (by omega)]

theorem buffer_zero : (zero n).buffer = .zero n := by
  refine buffer_eq _ List.length_replicate fun i => ?_
  rw [List.getElem?_replicate, if_pos i.isLt, get_zero]
  rfl

theorem buffer_set (i : Fin n) (d : Byte) :
    (m.set i d).buffer = ⟨m.buffer.cells.set i d.toNat⟩ := by
  refine buffer_eq _ (by rw [List.length_set, length_buffer]) fun j => ?_
  by_cases hij : i = j
  · subst hij
    rw [List.getElem?_set_self (m.lt_length_buffer i), get_set_self]
  · rw [List.getElem?_set_ne (fun hv => hij (Fin.ext hv)), getElem?_buffer, get_set_ne m d hij]

/-- A cell of the memory can be read from its buffer. -/
theorem get_buffer (i : Fin n) : m.buffer.get i.val = .ok (m.get i).toNat := by
  have hi := m.getElem?_buffer i
  rw [List.getElem?_eq_getElem (m.lt_length_buffer i)] at hi
  rw [Buffer.get_of_lt (m.lt_length_buffer i), Option.some.inj hi]

/-- A byte can be stored in its buffer. -/
theorem set_buffer (i : Fin n) (d : Byte) :
    m.buffer.set i.val d.toNat = .ok (m.set i d).buffer := by
  rw [Buffer.set_of_lt (m.lt_length_buffer i), buffer_set]

/-- Bytes that are stored one after the other take the place of a slice as long as they are. -/
theorem buffer_place (i : Nat) (data : List Byte) (h : i + data.length ≤ n) :
    (m.place i data).buffer = m.buffer.replace i (i + data.length) (.ofBytes data) := by
  have hn := m.length_buffer
  have hbegin : m.buffer.sliceEnd i = i := by
    unfold Buffer.sliceEnd Buffer.place Buffer.length
    omega
  have hend : m.buffer.sliceEnd (i + data.length) = i + data.length := by
    unfold Buffer.sliceEnd Buffer.place Buffer.length
    omega
  have hhead : (m.buffer.cells.take i).length = i := by
    rw [List.length_take]
    omega
  rw [Buffer.replace, hbegin, hend, Nat.max_eq_right (Nat.le_add_right _ _), Buffer.ofBytes]
  refine buffer_eq _ ?_ fun k => ?_
  · rw [List.length_append, List.length_append, hhead, List.length_map, List.length_drop]
    omega
  -- a cell lies before the slice, in it or behind it
  rw [List.append_assoc]
  rcases Nat.lt_or_ge k.val i with hbefore | hge
  · rw [get_place_of_lt _ _ _ hbefore, List.getElem?_append_left (by omega),
      List.getElem?_take_of_lt hbefore, getElem?_buffer]
  rw [get_place _ _ _ hge, List.getElem?_append_right (by omega), hhead]
  rcases Nat.lt_or_ge (k.val - i) data.length with hin | hbehind
  · rw [List.getElem?_append_left (by rw [List.length_map]; exact hin), List.getElem?_map,
      List.getElem?_eq_getElem hin]
    rfl
  · have hk : i + data.length + (k.val - i - data.length) = k.val := by omega
    rw [List.getElem?_append_right (by rw [List.length_map]; exact hbehind), List.length_map,
      List.getElem?_drop, hk, getElem?_buffer, List.getElem?_eq_none hbehind]
    rfl

end Memory

/-! ### Actions -/

/-- What is done with a state: it yields something or fails, and leaves a state behind. -/
abbrev Action (σ α : Type) : Type := ExceptT Fault (StateM σ) α

namespace Action

variable {σ α β : Type}

/-- The result of an action, and the state after it. -/
def perform (p : Action σ α) (s : σ) : Except Fault α × σ := p.run.run s

/-- An action goes on where the first part of it ended. -/
theorem perform_bind_of_ok {p : Action σ α} {s s' : σ} {a : α} (h : p.perform s = (.ok a, s'))
    (f : α → Action σ β) : (p >>= f).perform s = (f a).perform s' := by
  have hrun : p s = (.ok a, s') := h
  show ExceptT.bindCont f (p s).1 (p s).2 = _
  rw [hrun]
  rfl

/-- If the first part of an action fails, so does all of it. -/
theorem perform_bind_of_error {p : Action σ α} {s s' : σ} {fault : Fault}
    (h : p.perform s = (.error fault, s')) (f : α → Action σ β) :
    (p >>= f).perform s = (.error fault, s') := by
  have hrun : p s = (.error fault, s') := h
  show ExceptT.bindCont f (p s).1 (p s).2 = _
  rw [hrun]
  rfl

theorem perform_map {p : Action σ α} {s s' : σ} {e : Except Fault α} (h : p.perform s = (e, s'))
    (f : α → β) : (f <$> p).perform s = (e.map f, s') := by
  cases e with
  | ok a => exact perform_bind_of_ok h _
  | error fault => exact perform_bind_of_error h _

theorem perform_liftExcept (e : Except Fault α) (s : σ) :
    (liftExcept e : Action σ α).perform s = (e, s) := by
  cases e <;> rfl

end Action

end Famicom
