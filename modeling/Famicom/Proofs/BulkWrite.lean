import Mathlib.Data.List.Induction
import Famicom.Proofs.Buffer
import Famicom.Proofs.Checked

/-! # Bulk writes

Many bytes are stored at once by checking the first and the last address and then replacing a slice
of the buffer that the memory is kept in (`Unbounded.Storage.writeAll`).  Nothing in a slice keeps
it in the buffer, or the buffer at its length; the two checks do, and they come before anything is
changed.

So a bulk write stores all of its bytes, as if they had been written one by one
(`Memory.writeEach`), or none (`Memory.AllOrNothing`).  Of any writes, some of which may have been
refused, a cell shows the last that was carried out and reached it (`Memory.get_foldl_after`). -/

namespace Famicom

/-! ### Memories in buffers -/

namespace Unbounded

/-- A memory on unbounded integers: its size, and beside it a buffer that need not be of that
size. -/
structure Storage where
  size : Int
  buffer : Buffer
deriving Repr, DecidableEq

namespace Storage

def checkAddress (address : Int) : Action Storage Unit := do
  let s ← get
  if ¬ (0 ≤ address ∧ address < s.size) then
    throw (.addressOutOfRange address)

def read (address : Int) : Action Storage Int := do
  checkAddress address
  liftExcept ((← get).buffer.get address)

def write (address data : Int) : Action Storage Unit := do
  checkAddress address
  let buffer ← liftExcept ((← get).buffer.set address data)
  modify ({ · with buffer })

def writeAll (address : Int) (data : List Byte) : Action Storage Unit := do
  if data.isEmpty then
    return
  checkAddress address
  checkAddress (address + data.length - 1)
  modify fun s => { s with
    buffer := s.buffer.replace address (address + data.length) (.ofBytes data) }

end Storage

end Unbounded

open Unbounded (Storage)

namespace Memory

/-! ### Stores -/

/-- Something to be stored. -/
inductive Store where
  | one (address data : Int)
  | many (address : Int) (data : List Byte)
deriving Repr, DecidableEq

namespace Store

/-- There is room for what is to be stored in a memory of `n` cells, and it consists of bytes. -/
def Fits (n : Nat) : Store → Prop
  | one address data => (0 ≤ address ∧ address < n) ∧ 0 ≤ data ∧ data < 256
  | many address data => data = [] ∨ 0 ≤ address ∧ address + data.length ≤ n

instance (n : Nat) : DecidablePred (Fits n)
  | one _ _ => inferInstanceAs (Decidable (_ ∧ _))
  | many _ _ => inferInstanceAs (Decidable (_ ∨ _))

/-- The byte that is meant for a cell, if there is one. -/
def byteFor? (i : Int) : Store → Option Byte
  | one address data => if address = i then some (BitVec.ofInt 8 data) else none
  | many address data => if address ≤ i then data[(i - address).toNat]? else none

end Store

variable {n : Nat}

/-- The memory with something stored, unless that is refused. -/
def attempt (m : Memory n) : Store → Except Fault (Memory n)
  | .one address data => m.write address data
  | .many address data => m.writeAll address data

/-- The memory after something was to be stored. -/
def after (m : Memory n) (s : Store) : Memory n :=
  match m.attempt s with
  | .ok m' => m'
  | .error _ => m

/-- The byte that was stored last in a cell. -/
def lastStored (i : Fin n) (ss : List Store) : Option Byte :=
  ((ss.filter (Store.Fits n)).filterMap (Store.byteFor? i.val)).getLast?

/-- Writes bytes one by one to consecutive addresses. -/
def writeEach (m : Memory n) (address : Int) (data : List Byte) : Except Fault (Memory n) :=
  data.zipIdx.foldlM (fun m (d, i) => m.write (address + i) d.toNat) m

section
variable (m : Memory n)

/-! ### What is refused -/

theorem cell?_eq_some {address : Int} (h : 0 ≤ address ∧ address < n) :
    cell? n address = some ⟨address.toNat, by omega⟩ := by
  unfold cell?
  rw [dif_pos ⟨h.1, by omega⟩]

theorem write_of_fits {address data : Int} (h : (Store.one address data).Fits n) :
    m.write address data =
      .ok (m.set ⟨address.toNat, by have := h.1; omega⟩ (BitVec.ofInt 8 data)) := by
  rw [write, cell?_eq_some h.1, Byte.ofInt?, if_pos h.2]

theorem write_of_not_fits {address data : Int} (h : ¬ (Store.one address data).Fits n) :
    m.write address data =
      .error (if 0 ≤ address ∧ address < n then .byteOutOfRange
        else .addressOutOfRange address) := by
  by_cases hcell : 0 ≤ address ∧ address < n
  · have hdata : Byte.ofInt? data = none := if_neg fun hbyte => h ⟨hcell, hbyte⟩
    rw [if_pos hcell, write, cell?_eq_some hcell, hdata]
  · rw [if_neg hcell, write, cell?_eq_none_iff.mpr hcell]

theorem writeAll_of_fits {address : Int} {data : List Byte} (h : (Store.many address data).Fits n) :
    m.writeAll address data = .ok (m.place address.toNat data) := by
  cases data with
  | nil => rfl
  | cons d ds =>
      rcases h with h | ⟨hfirst, hlast⟩
      · cases h
      · rw [List.length_cons] at hlast
        rw [writeAll, List.isEmpty_cons, List.length_cons, cell?_eq_some (by omega),
          cell?_eq_some (by omega)]
        rfl

/-- The first address is reported, or the last one if the first one exists. -/
theorem writeAll_of_not_fits {address : Int} {data : List Byte}
    (h : ¬ (Store.many address data).Fits n) :
    m.writeAll address data = .error (.addressOutOfRange
      (if 0 ≤ address ∧ address < n then address + data.length - 1 else address)) := by
  obtain ⟨hne, hroom⟩ := not_or.mp h
  have hempty : ¬ data.isEmpty = true := fun he => hne (List.isEmpty_iff.mp he)
  rw [writeAll, if_neg hempty]
  by_cases hfirst : 0 ≤ address ∧ address < n
  · rw [if_pos hfirst, cell?_eq_some hfirst, cell?_eq_none_iff.mpr (by omega)]
  · rw [if_neg hfirst, cell?_eq_none_iff.mpr hfirst]

theorem attempt_eq_ok_iff (s : Store) : (∃ m', m.attempt s = .ok m') ↔ s.Fits n := by
  by_cases h : s.Fits n
  · refine iff_of_true ?_ h
    cases s with
    | one address data => exact ⟨_, m.write_of_fits h⟩
    | many address data => exact ⟨_, m.writeAll_of_fits h⟩
  · refine iff_of_false ?_ h
    rintro ⟨m', hm⟩
    cases s with
    | one address data => cases (m.write_of_not_fits h).symm.trans hm
    | many address data => cases (m.writeAll_of_not_fits h).symm.trans hm

theorem attempt_of_fits {s : Store} (h : s.Fits n) : m.attempt s = .ok (m.after s) := by
  obtain ⟨m', hm⟩ := (m.attempt_eq_ok_iff s).mpr h
  rw [after, hm]

theorem after_of_not_fits {s : Store} (h : ¬ s.Fits n) : m.after s = m := by
  unfold after
  split
  · rename_i m' hm
    exact absurd ((m.attempt_eq_ok_iff s).mp ⟨m', hm⟩) h
  · rfl

/-! ### What is stored -/

theorem after_one {address data : Int} (h : (Store.one address data).Fits n) :
    m.after (.one address data) =
      m.set ⟨address.toNat, by have := h.1; omega⟩ (BitVec.ofInt 8 data) :=
  Except.ok.inj ((m.attempt_of_fits h).symm.trans (m.write_of_fits h))

theorem after_many {address : Int} {data : List Byte} (h : (Store.many address data).Fits n) :
    m.after (.many address data) = m.place address.toNat data :=
  Except.ok.inj ((m.attempt_of_fits h).symm.trans (m.writeAll_of_fits h))

/-- A store that fits puts into each cell the byte that is meant for it. -/
theorem get_after {s : Store} (h : s.Fits n) (i : Fin n) :
    (m.after s).get i = (s.byteFor? i.val).getD (m.get i) := by
  cases s with
  | one address data =>
      rw [m.after_one h, Store.byteFor?]
      by_cases hi : address = i.val
      · subst hi
        rw [if_pos rfl]
        exact get_set_self m i _
      · rw [if_neg hi]
        refine get_set_ne m _ fun hcell => hi ?_
        have hv : address.toNat = i.val := congrArg Fin.val hcell
        have := h.1
        omega
  | many address data =>
      rw [m.after_many h, Store.byteFor?]
      rcases h with rfl | ⟨hfirst, -⟩
      · split <;> rfl
      · by_cases hi : address ≤ i.val
        · have hv : (i.val - address).toNat = i.val - address.toNat := by omega
          rw [if_pos hi, get_place _ _ _ (by omega), hv]
        · rw [if_neg hi, get_place_of_lt _ _ _ (by omega)]
          rfl

/-- After some stores, a cell shows the byte that was stored last in it. -/
theorem get_foldl_after (ss : List Store) (i : Fin n) :
    (ss.foldl after (zero n)).get i = (lastStored i ss).getD 0 := by
  -- by induction from the last store backwards, since it is the one that counts
  induction ss using List.reverseRecOn with
  | nil => exact get_zero i
  | append_singleton ss s ih =>
      rw [List.foldl_append, List.foldl_cons, List.foldl_nil]
      by_cases h : s.Fits n
      · have hlast : lastStored i (ss ++ [s]) = (s.byteFor? i.val).or (lastStored i ss) := by
          unfold lastStored
          cases hb : s.byteFor? i.val <;> simp [List.filter_append, h, hb]
        rw [get_after _ h, ih, hlast]
        cases s.byteFor? i.val <;> rfl
      · have hlast : lastStored i (ss ++ [s]) = lastStored i ss := by
          unfold lastStored
          simp [List.filter_append, h]
        rw [after_of_not_fits _ h, ih, hlast]

/-- The bytes of data that fits can be written one by one. -/
theorem foldlM_write {a : Nat} {data : List Byte} (k : Nat) (h : a + k + data.length ≤ n) :
    (data.zipIdx k).foldlM (fun m (d, i) => m.write (a + i) d.toNat) m =
      .ok (m.place (a + k) data) := by
  induction data generalizing m k with
  | nil => rfl
  | cons d ds ih =>
      rw [List.length_cons] at h
      have hcell : a + k < n := by omega
      have hfirst : m.write ((a : Int) + k) d.toNat = .ok (m.set ⟨a + k, hcell⟩ d) :=
        m.write_of_lt hcell (Int.natCast_add a k).symm d
      rw [List.zipIdx_cons, List.foldlM_cons]
      show m.write ((a : Int) + k) d.toNat >>= _ = _
      rw [hfirst]
      refine (ih _ (k + 1) (by omega)).trans ?_
      rw [place, dif_pos hcell, Nat.add_assoc]

theorem writeEach_of_fits {address : Int} {data : List Byte}
    (h : (Store.many address data).Fits n) :
    m.writeEach address data = .ok (m.after (.many address data)) := by
  rw [m.after_many h]
  rcases h with rfl | ⟨hfirst, hlast⟩
  · rfl
  · obtain ⟨a, rfl⟩ := Int.eq_ofNat_of_zero_le hfirst
    exact m.foldlM_write 0 (by omega)

end

end Memory

/-! ### What becomes of the buffer -/

/-- The memory in a buffer. -/
def Memory.storage {n : Nat} (m : Memory n) : Storage := ⟨n, m.buffer⟩

namespace Unbounded.Storage

open Memory (Store)

theorem perform_checkAddress {s : Storage} {a : Int} (h : 0 ≤ a ∧ a < s.size) :
    (checkAddress a).perform s = (.ok (), s) := by
  show (if ¬ (0 ≤ a ∧ a < s.size) then _ else _ : Action Storage Unit).perform s = _
  rw [if_neg (not_not_intro h)]
  rfl

theorem perform_checkAddress_of_none {s : Storage} {a : Int} (h : ¬ (0 ≤ a ∧ a < s.size)) :
    (checkAddress a).perform s = (.error (.addressOutOfRange a), s) := by
  show (if ¬ (0 ≤ a ∧ a < s.size) then _ else _ : Action Storage Unit).perform s = _
  rw [if_pos h]
  rfl

/-- What is done to store something. -/
def attempt : Store → Action Storage Unit
  | .one address data => write address data
  | .many address data => writeAll address data

/-- What is left after something was to be stored. -/
def after (s : Storage) (x : Store) : Storage := ((attempt x).perform s).2

variable {n : Nat} (m : Memory n)

theorem perform_read (i : Fin n) :
    (read i.val).perform m.storage = (.ok (m.get i).toNat, m.storage) := by
  rw [read, Action.perform_bind_of_ok (perform_checkAddress ⟨by omega, by
    show (i.val : Int) < n
    omega⟩)]
  show (liftExcept (m.buffer.get i.val) : Action Storage Int).perform m.storage = _
  rw [Action.perform_liftExcept, m.get_buffer i]

theorem perform_write (a d : Int) :
    (write a d).perform m.storage =
      ((m.write a d).map fun _ => (), (m.after (.one a d)).storage) := by
  by_cases h : 0 ≤ a ∧ a < n
  · obtain ⟨k, rfl⟩ := Int.eq_ofNat_of_zero_le h.1
    let i : Fin n := ⟨k, by omega⟩
    have hput : (write k d).perform m.storage =
        (liftExcept (m.buffer.set i.val d) >>= fun buffer =>
          modify ({ · with buffer }) : Action Storage Unit).perform m.storage := by
      rw [write, Action.perform_bind_of_ok (perform_checkAddress h)]
      rfl
    rw [hput]
    by_cases hd : 0 ≤ d ∧ d < 256
    · have hfits : (Store.one k d).Fits n := ⟨h, hd⟩
      have hvalue : ((BitVec.ofInt 8 d).toNat : Int) = d := by
        rw [BitVec.toNat_ofInt]
        omega
      have hset := m.set_buffer i (BitVec.ofInt 8 d)
      rw [hvalue] at hset
      rw [hset, Action.perform_bind_of_ok (Action.perform_liftExcept _ _), m.write_of_fits hfits,
        m.after_one hfits]
      rfl
    · have hfits : ¬ (Store.one k d).Fits n := fun hf => hd hf.2
      rw [Buffer.set_of_not_byte (m.lt_length_buffer i) hd,
        Action.perform_bind_of_error (Action.perform_liftExcept _ _), m.write_of_not_fits hfits,
        m.after_of_not_fits hfits, if_pos h]
      rfl
  · have hfits : ¬ (Store.one a d).Fits n := fun hf => h hf.1
    rw [write, Action.perform_bind_of_error (perform_checkAddress_of_none h),
      m.write_of_not_fits hfits, m.after_of_not_fits hfits, if_neg h]
    rfl

theorem perform_writeAll (a : Int) (data : List Byte) :
    (writeAll a data).perform m.storage =
      ((m.writeAll a data).map fun _ => (), (m.after (.many a data)).storage) := by
  by_cases hempty : data.isEmpty = true
  · cases List.isEmpty_iff.mp hempty
    rw [m.after_many (Or.inl rfl)]
    rfl
  have hpos : 0 < data.length :=
    List.length_pos_iff.mpr fun hnil => hempty (List.isEmpty_iff.mpr hnil)
  have hroom : (Store.many a data).Fits n ↔ 0 ≤ a ∧ a + data.length ≤ n :=
    or_iff_right (List.length_pos_iff.mp hpos)
  rw [writeAll, if_neg hempty]
  by_cases hfirst : 0 ≤ a ∧ a < n
  · rw [Action.perform_bind_of_ok (perform_checkAddress hfirst)]
    by_cases hlast : 0 ≤ a + data.length - 1 ∧ a + data.length - 1 < n
    · have hfits : (Store.many a data).Fits n := hroom.mpr (by omega)
      obtain ⟨k, rfl⟩ := Int.eq_ofNat_of_zero_le hfirst.1
      rw [Action.perform_bind_of_ok (perform_checkAddress hlast), m.writeAll_of_fits hfits,
        m.after_many hfits]
      show (Except.ok (), (⟨n, m.buffer.replace k (k + data.length) _⟩ : Storage)) = _
      rw [← m.buffer_place k data (by omega)]
      rfl
    · have hfits : ¬ (Store.many a data).Fits n := fun hf => hlast (by have := hroom.mp hf; omega)
      rw [Action.perform_bind_of_error (perform_checkAddress_of_none hlast),
        m.writeAll_of_not_fits hfits, m.after_of_not_fits hfits, if_pos hfirst]
      rfl
  · have hfits : ¬ (Store.many a data).Fits n := fun hf => hfirst (by have := hroom.mp hf; omega)
    rw [Action.perform_bind_of_error (perform_checkAddress_of_none hfirst),
      m.writeAll_of_not_fits hfits, m.after_of_not_fits hfits, if_neg hfirst]
    rfl

/-- A memory and the buffer that it is kept in do the same. -/
theorem perform_attempt (s : Store) :
    (attempt s).perform m.storage =
      ((m.attempt s).map fun _ => (), (m.after s).storage) := by
  cases s with
  | one address data => exact perform_write m address data
  | many address data => exact perform_writeAll m address data

theorem foldl_after (ss : List Store) :
    ss.foldl after m.storage = (ss.foldl Memory.after m).storage := by
  induction ss generalizing m with
  | nil => rfl
  | cons s ss ih =>
      have hs : after m.storage s = (m.after s).storage := congrArg Prod.snd (perform_attempt m s)
      rw [List.foldl_cons, hs]
      exact ih (m.after s)

end Unbounded.Storage

namespace Memory

variable {n : Nat}

/-- A bulk write stores all of its bytes or none. -/
structure AllOrNothing (m : Memory n) (address : Int) (data : List Byte) : Prop where
  refused_iff : (∃ a, m.writeAll address data = .error (.addressOutOfRange a)) ↔
    data ≠ [] ∧ ¬ (0 ≤ address ∧ address + data.length ≤ n)
  after_of_refused : ∀ fault, m.writeAll address data = .error fault →
    m.after (.many address data) = m
  /-- If it is not refused, it does what single writes do. -/
  carried_out : data = [] ∨ 0 ≤ address ∧ address + data.length ≤ n →
    m.writeAll address data = .ok (m.after (.many address data)) ∧
      m.writeEach address data = .ok (m.after (.many address data))
  get_of_unreached : ∀ i : Fin n, ¬ (address ≤ i.val ∧ i.val < address + data.length) →
    (m.after (.many address data)).get i = m.get i
  /-- So it is in the buffer, where a slice is replaced. -/
  perform_eq : (Storage.writeAll address data).perform m.storage =
    ((m.writeAll address data).map fun _ => (), (m.after (.many address data)).storage)
  length_eq : ((Storage.writeAll address data).perform m.storage).2.buffer.length = n

theorem allOrNothing (m : Memory n) (address : Int) (data : List Byte) :
    m.AllOrNothing address data := by
  have hperform := Storage.perform_writeAll m address data
  have hlength : ((Storage.writeAll address data).perform m.storage).2.buffer.length = n := by
    rw [hperform]
    exact (m.after (.many address data)).length_buffer
  by_cases h : (Store.many address data).Fits n
  · refine ⟨iff_of_false ?_ ?_, fun fault hf => ?_,
      fun _ => ⟨m.attempt_of_fits h, m.writeEach_of_fits h⟩, fun i hi => ?_, hperform, hlength⟩
    · rintro ⟨a, ha⟩
      cases (m.writeAll_of_fits h).symm.trans ha
    · exact fun hn => h.elim hn.1 hn.2
    · cases (m.writeAll_of_fits h).symm.trans hf
    · rw [m.get_after h, Store.byteFor?]
      split
      · rw [List.getElem?_eq_none (by omega)]
        rfl
      · rfl
  · have hafter := m.after_of_not_fits h
    refine ⟨iff_of_true ⟨_, m.writeAll_of_not_fits h⟩ (not_or.mp h), fun _ _ => hafter,
      fun hf => absurd hf h, fun i _ => ?_, hperform, hlength⟩
    rw [hafter]

/-- The first two bytes would have had room. -/
example : (zero 0x10).writeAll 0x0E [1, 2, 3] = .error (.addressOutOfRange 0x10) := by decide

/-- **A bulk write is all or nothing**, on a memory of any size and in any state.  After any stores
to a memory that held zero everywhere, be they refused or not, the byte that was stored last in a
cell is read from it, or zero; and so it is read from the buffer that the memory is kept in.  A
store is carried out just if it fits. -/
theorem bulk_write (n : Nat) :
    (∀ (m : Memory n) (address : Int) (data : List Byte), m.AllOrNothing address data) ∧
      ∀ ss : List Store,
        let m := ss.foldl after (zero n)
        let s := ss.foldl Storage.after ⟨n, .zero n⟩
        s = m.storage ∧ (∀ x : Store, (∃ m', m.attempt x = .ok m') ↔ x.Fits n) ∧
          ∀ i : Fin n, m.read i.val = .ok ((lastStored i ss).getD 0) ∧
            (Storage.read i.val).perform s = (.ok ((lastStored i ss).getD 0).toNat, s) := by
  refine ⟨allOrNothing, fun ss => ?_⟩
  intro m s
  have hs : s = m.storage := by
    have hzero : (zero n).storage = ⟨n, .zero n⟩ := congrArg (Storage.mk n) (buffer_zero (n := n))
    show ss.foldl Storage.after ⟨n, .zero n⟩ = _
    rw [← hzero, Storage.foldl_after]
  refine ⟨hs, m.attempt_eq_ok_iff, fun i => ?_⟩
  have hget : m.get i = (lastStored i ss).getD 0 := get_foldl_after ss i
  rw [m.read_of_lt i.isLt rfl, hs, Storage.perform_read, ← hget]
  exact ⟨rfl, rfl⟩

end Memory

end Famicom
