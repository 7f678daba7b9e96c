import Mathlib.Data.List.Induction
import Famicom.Proofs.Checked

/-! # Video memory is a mirrored store

Each cell of video memory is shown at many addresses; `VideoMemory.canon` is the one among them that
stands for all.  Two addresses show the same cell just if they have the same canonical address
(`VideoMemory.canon_eq_iff`), although the range that shows the nametables once more is shorter than
the nametables, and although four palette entries are shown twice as often as the others.  So video
memory is a store with one place for each canonical address: what is read at an address was written
last to some address with the same canonical one (`VideoMemory.read_of_writes`).

The memories behind the addresses check the place that they are asked for.  `readChecked` and
`writeChecked` go through these checks, of which only that of the data can fail. -/

namespace Famicom

namespace Memory

variable {n : Nat}

/-- A write to a cell that exists depends on the data alone. -/
theorem write_of_cell (m : Memory n) {a : Int} {i : Nat} (hi : i < n) (h : a = i) (d : Int) :
    m.write a d =
      match Byte.ofInt? d with
      | none => .error .byteOutOfRange
      | some d => .ok (m.set ⟨i, hi⟩ d) := by
  have hcell : cell? n a = some ⟨i, hi⟩ := by
    subst h
    unfold cell?
    rw [dif_pos ⟨by omega, by omega⟩]
    rfl
  unfold write
  rw [hcell]
  cases Byte.ofInt? d <;> rfl

end Memory

namespace VideoMemory

/-! ### Canonical addresses -/

/-- The address that stands for all addresses of the same cell. -/
def canon (address : Int) : Int :=
  let m := address % 0x4000
  if m < 0x3000 then m
  else if m < 0x3F00 then m - 0x1000
  else
    let i := (m - 0x3F00) % 32
    0x3F00 + if 16 ≤ i ∧ i % 4 = 0 then i - 16 else i

/-- Where a cell stands. -/
def Cell.home : Cell → Int
  | table i => i.val
  | palette i => 0x3F00 + i.val

theorem Cell.home_injective {c c' : Cell} (h : c.home = c'.home) : c = c' := by
  cases c with
  | table i =>
      cases c' with
      | table j =>
          have hij : i = j := Fin.ext (Int.ofNat.inj h)
          rw [hij]
      | palette j =>
          simp only [home] at h
          omega
  | palette i =>
      cases c' with
      | table j =>
          simp only [home] at h
          omega
      | palette j =>
          simp only [home] at h
          have hij : i = j := Fin.ext (by omega)
          rw [hij]

/-- How an address leads to its cell. -/
inductive LeadsTo (address : Int) : Cell → Prop where
  | table (h : address % 0x4000 < 0x3000) (i : Fin 0x3000) (hi : address % 0x4000 = i.val) :
      LeadsTo address (.table i)
  | mirror (h : 0x3000 ≤ address % 0x4000) (h' : address % 0x4000 < 0x3F00) (i : Fin 0x3000)
      (hi : address % 0x4000 - 0x1000 = i.val) : LeadsTo address (.table i)
  | palette (h : 0x3F00 ≤ address % 0x4000) (h' : (address % 0x4000 - 0x3F00) % 32 < 16 ∨
      (address % 0x4000 - 0x3F00) % 32 % 4 ≠ 0) (i : Fin 0x20)
      (hi : (address % 0x4000 - 0x3F00) % 32 = i.val) : LeadsTo address (.palette i)
  | backdrop (h : 0x3F00 ≤ address % 0x4000) (h' : 16 ≤ (address % 0x4000 - 0x3F00) % 32)
      (h4 : (address % 0x4000 - 0x3F00) % 32 % 4 = 0) (i : Fin 0x20)
      (hi : (address % 0x4000 - 0x3F00) % 32 - 16 = i.val) : LeadsTo address (.palette i)

theorem leadsTo_cell (address : Int) : LeadsTo address (cell address) := by
  unfold cell
  dsimp only
  split
  · exact .table (by omega) _ (by dsimp only; omega)
  · split
    · exact .mirror (by omega) (by omega) _ (by dsimp only; omega)
    · unfold paletteEntry
      dsimp only
      split
      · exact .backdrop (by omega) (by omega) (by omega) _ (by dsimp only; omega)
      · exact .palette (by omega) (by omega) _ (by dsimp only; omega)

theorem canon_eq_home (address : Int) : canon address = (cell address).home := by
  have h := leadsTo_cell address
  unfold canon
  dsimp only
  generalize cell address = c at h ⊢
  cases h with
  | table h i hi =>
      rw [if_pos h]
      exact hi
  | mirror h h' i hi =>
      rw [if_neg (by omega), if_pos h']
      exact hi
  | palette h h' i hi =>
      rw [if_neg (by omega), if_neg (by omega), if_neg (by omega), hi]
      rfl
  | backdrop h h' h4 i hi =>
      rw [if_neg (by omega), if_neg (by omega), if_pos ⟨h', h4⟩, hi]
      rfl

/-- Addresses show the same cell just if they have the same canonical address. -/
theorem canon_eq_iff {a b : Int} : canon a = canon b ↔ cell a = cell b := by
  rw [canon_eq_home, canon_eq_home]
  constructor
  · exact Cell.home_injective
  · exact congrArg Cell.home

/-- The sprite backdrops in the last copy of the palettes, and the end of the nametables' mirror. -/
example : canon 0x3FFC = 0x3F0C ∧ canon (-1) = 0x3F1F ∧ canon 0x3EFF = 0x2EFF := by decide

/-! ### Checks -/

/-- The place of a palette entry in its memory. -/
def palettePlace (address : Int) : Int :=
  let i := (address - 0x3F00) % 0x20
  if 0x10 ≤ i ∧ i % 4 = 0 then i - 0x10 else i

/-- Reads at an address; the memory behind it checks the place. -/
def readChecked (m : VideoMemory) (address : Int) : Except Fault Byte :=
  let a := address % 0x4000
  if a < 0x3000 then m.tables.read a
  else if a < 0x3F00 then m.tables.read (a - 0x1000)
  else m.palettes.read (palettePlace a)

/-- Writes at an address; the memory behind it checks the place and the value. -/
def writeChecked (m : VideoMemory) (address data : Int) : Except Fault VideoMemory :=
  let a := address % 0x4000
  if a < 0x3000 then (m.tables.write a data).map ({ m with tables := · })
  else if a < 0x3F00 then (m.tables.write (a - 0x1000) data).map ({ m with tables := · })
  else (m.palettes.write (palettePlace a) data).map ({ m with palettes := · })

section checks
variable (m : VideoMemory) (address : Int)

/-- The place of every address exists. -/
theorem readChecked_eq : m.readChecked address = .ok (m.read address) := by
  have h := leadsTo_cell address
  unfold readChecked read palettePlace
  dsimp only
  generalize cell address = c at h ⊢
  cases h with
  | table h i hi => rw [if_pos h, Memory.read_of_lt _ i.isLt hi, get]
  | mirror h h' i hi =>
      rw [if_neg (by omega), if_pos h', Memory.read_of_lt _ i.isLt hi, get]
  | palette h h' i hi =>
      rw [if_neg (by omega), if_neg (by omega), if_neg (by omega),
        Memory.read_of_lt _ i.isLt hi, get]
  | backdrop h h' h4 i hi =>
      rw [if_neg (by omega), if_neg (by omega), if_pos ⟨h', h4⟩,
        Memory.read_of_lt _ i.isLt hi, get]

theorem writeChecked_eq (data : Int) : m.writeChecked address data = m.write address data := by
  have h := leadsTo_cell address
  unfold writeChecked write store palettePlace
  dsimp only
  generalize cell address = c at h ⊢
  cases h with
  | table h i hi =>
      rw [if_pos h, Memory.write_of_cell _ i.isLt hi]
      cases Byte.ofInt? data <;> rfl
  | mirror h h' i hi =>
      rw [if_neg (by omega), if_pos h', Memory.write_of_cell _ i.isLt hi]
      cases Byte.ofInt? data <;> rfl
  | palette h h' i hi =>
      rw [if_neg (by omega), if_neg (by omega), if_neg (by omega),
        Memory.write_of_cell _ i.isLt hi]
      cases Byte.ofInt? data <;> rfl
  | backdrop h h' h4 i hi =>
      rw [if_neg (by omega), if_neg (by omega), if_pos ⟨h', h4⟩,
        Memory.write_of_cell _ i.isLt hi]
      cases Byte.ofInt? data <;> rfl

end checks

/-! ### Writes -/

/-- An address and a value to be written there. -/
structure Store where
  address : Int
  data : Int
deriving Repr, DecidableEq

/-- The memory after a value is to be written; a value that is no byte leaves it as it is. -/
def after (m : VideoMemory) (s : Store) : VideoMemory :=
  match m.write s.address s.data with
  | .ok m' => m'
  | .error _ => m

/-- The store puts a byte where the address shows it. -/
def Store.Reaches (a : Int) (s : Store) : Prop :=
  canon s.address = canon a ∧ 0 ≤ s.data ∧ s.data < 256

instance (a : Int) : DecidablePred (Store.Reaches a) := fun _ =>
  inferInstanceAs (Decidable (_ ∧ _))

/-- What was written last where an address shows it. -/
def lastWritten (a : Int) (ss : List Store) : Option Int :=
  ((ss.filter (Store.Reaches a)).getLast?).map Store.data

section writes
variable (m : VideoMemory) (a : Int)

theorem write_of_byte {d : Int} (h : 0 ≤ d ∧ d < 256) (address : Int) :
    m.write address d = .ok (m.store address (BitVec.ofInt 8 d)) := by
  rw [write, Byte.ofInt?, if_pos h]

theorem write_of_not_byte {d : Int} (h : ¬ (0 ≤ d ∧ d < 256)) (address : Int) :
    m.write address d = .error .byteOutOfRange := by
  rw [write, Byte.ofInt?, if_neg h]

theorem after_of_not_byte {s : Store} (h : ¬ (0 ≤ s.data ∧ s.data < 256)) : m.after s = m := by
  rw [after, m.write_of_not_byte h]

/-- A write is refused just if the value is no byte, and then it changes nothing. -/
theorem write_eq_after (s : Store) :
    m.write s.address s.data =
      if 0 ≤ s.data ∧ s.data < 256 then .ok (m.after s) else .error .byteOutOfRange := by
  by_cases h : 0 ≤ s.data ∧ s.data < 256
  · rw [if_pos h, after, m.write_of_byte h]
  · rw [if_neg h, m.write_of_not_byte h]

theorem read_store_of_canon_eq {b : Int} (d : Byte) (h : canon b = canon a) :
    (m.store b d).read a = d := by
  rw [read, store, canon_eq_iff.mp h, get_set_self]

theorem read_store_of_canon_ne {b : Int} (d : Byte) (h : canon b ≠ canon a) :
    (m.store b d).read a = m.read a := by
  have hcell : cell b ≠ cell a := fun hc => h (canon_eq_iff.mpr hc)
  rw [read, store, get_set_ne m d hcell, read]

/-- A store shows at an address just if it reaches it. -/
theorem read_after (s : Store) :
    ((m.after s).read a).toNat = if s.Reaches a then s.data else (m.read a).toNat := by
  by_cases hbyte : 0 ≤ s.data ∧ s.data < 256
  · rw [after, m.write_of_byte hbyte]
    dsimp only
    by_cases hcanon : canon s.address = canon a
    · rw [if_pos ⟨hcanon, hbyte⟩, read_store_of_canon_eq m a _ hcanon, BitVec.toNat_ofInt]
      omega
    · rw [if_neg fun h => hcanon h.1, read_store_of_canon_ne m a _ hcanon]
  · rw [after_of_not_byte m hbyte, if_neg fun h => hbyte h.2]

theorem lastWritten_append (ss : List Store) (s : Store) :
    lastWritten a (ss ++ [s]) = if s.Reaches a then some s.data else lastWritten a ss := by
  unfold lastWritten
  by_cases h : s.Reaches a <;> simp [List.filter_append, h]

end writes

/-- After some stores, the last one that reaches an address shows there. -/
theorem read_foldl_after (ss : List Store) (a : Int) :
    ((ss.foldl after zero).read a).toNat = (lastWritten a ss).getD 0 := by
  -- by induction from the last store backwards, since it is the one that counts
  induction ss using List.reverseRecOn with
  | nil =>
      show ((zero.read a).toNat : Int) = 0
      rw [read, get_zero]
      rfl
  | append_singleton ss s ih =>
      rw [List.foldl_append, List.foldl_cons, List.foldl_nil, lastWritten_append, read_after]
      split
      · rfl
      · exact ih

/-- **Video memory is a mirrored store.**  After any writes to a memory that held zero everywhere, an
address shows what was written last to an address with the same canonical one, or zero.  No place is
out of range; a write is refused just if the value is no byte, and then it changes nothing. -/
theorem read_of_writes (ss : List Store) (a : Int) :
    let m := ss.foldl after zero
    m.readChecked a = .ok (m.read a) ∧
      (m.read a).toNat = (lastWritten a ss).getD 0 ∧
      ∀ s : Store, m.writeChecked s.address s.data = m.write s.address s.data ∧
        m.write s.address s.data =
          if 0 ≤ s.data ∧ s.data < 256 then .ok (m.after s) else .error .byteOutOfRange := by
  intro m
  refine ⟨m.readChecked_eq a, read_foldl_after ss a, ?_⟩
  intro s
  exact ⟨m.writeChecked_eq s.address s.data, m.write_eq_after s⟩

end VideoMemory

end Famicom
