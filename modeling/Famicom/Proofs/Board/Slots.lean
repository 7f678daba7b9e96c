import Mathlib.Logic.Function.Basic
import Famicom.Proofs.Board.Aliases

/-! # Banks in slots

A cartridge is told by what it holds.  On the board it is made of parts: there are two slots, one for
each half of the upper address space, and a slot does not hold a bank but refers to one.  Both slots
may refer to the same bank, and this is how an image of a single bank shows twice.  A new image comes
into new banks; the slots are led to them one after the other, and only then the banks are filled.

`Slots` keeps these references apart from the banks.  The two never differ in what they show, in
whatever way a board is used: neither is an image ever taken by halves, nor do slots share a bank
that should not, or cease to (`Slots.shows_history`). -/

namespace Famicom

/-! ### Filling a bank -/

namespace Memory

variable {n : Nat}

/-- Bytes that fit are stored in an empty memory, and the rest remains empty. -/
theorem writeAll_zero {data : List Byte} (h : data.length ≤ n) :
    (zero n).writeAll 0 data = .ok (ofFn fun i => data[i.val]?.getD 0) := by
  cases data with
  | nil =>
      have hzero : zero n = ofFn fun _ => 0 := ext_get fun i => by rw [get_zero, get_ofFn]
      exact congrArg Except.ok hzero
  | cons d ds =>
      have hn : 0 < n := Nat.lt_of_lt_of_le (Nat.succ_pos _) h
      have hfirst : cell? n 0 = some ⟨0, hn⟩ := dif_pos ⟨Int.le_refl 0, hn⟩
      obtain ⟨last, hlast⟩ : ∃ last, cell? n (0 + (d :: ds).length - 1) = some last := by
        refine Option.ne_none_iff_exists'.mp ?_
        rw [Ne, cell?_eq_none_iff, not_not]
        rw [List.length_cons] at h ⊢
        omega
      rw [writeAll, if_neg (by simp), hfirst, hlast]
      refine congrArg Except.ok (ext_get fun i => ?_)
      rw [get_ofFn, get_place _ _ _ (Nat.zero_le _), get_zero]
      rfl

end Memory

/-! ### Images -/

namespace Cartridge

variable {image : Array Byte}

theorem ofImage_of_short (h : image.size ≤ 0x4000) :
    ofImage image = .ok (.mirrored (bankOf image 0)) := by
  rw [ofImage, if_neg (by omega), if_neg (by omega)]

theorem ofImage_of_long (h : 0x4000 < image.size) (hfits : image.size ≤ 0x8000) :
    ofImage image = .ok (.split (bankOf image 0) (bankOf image 0x4000)) := by
  rw [ofImage, if_neg (by omega), if_pos h]

theorem ofImage_of_tooLarge (h : ¬ image.size ≤ 0x8000) :
    ofImage image = .error (.imageTooLarge image.size) :=
  if_pos (Nat.lt_of_not_le h)

end Cartridge

namespace Board

variable (b : Board)

theorem insert_of_ok {image : Array Byte} {c : Cartridge} (h : Cartridge.ofImage image = .ok c) :
    b.insert image = (.ok (), { b with cartridge := c }) := by
  rw [insert, h]

theorem insert_of_error {image : Array Byte} {fault : Fault}
    (h : Cartridge.ofImage image = .error fault) : b.insert image = (.error fault, b) := by
  rw [insert, h]

theorem cartridge_read (t : Target) : (b.read t).2.cartridge = b.cartridge := by
  cases t <;> rfl

theorem cartridge_readAt (a : Int) : (b.readAt a).2.cartridge = b.cartridge := by
  unfold readAt
  dsimp only
  split
  · rfl
  · exact b.cartridge_read _

end Board

/-! ### Slots -/

/-- Program memory as it is wired: the banks, by the numbers in which they were made, and the number
of the bank that each of the two slots refers to. -/
structure Slots where
  bank : Nat → Memory 0x4000
  /-- How many banks have been made. -/
  made : Nat
  lower : Nat
  upper : Nat

namespace Slots

open Cartridge (bankOf bankOffset)

/-- Before there is an image, both slots refer to one bank. -/
def unloaded : Slots where
  bank _ := Memory.zero _
  made := 1
  lower := 0
  upper := 0

variable (s : Slots)

/-- The number of the bank at an offset into the upper half of the address space. -/
def number (i : Fin 0x8000) : Nat := if i.val < 0x4000 then s.lower else s.upper

/-- The byte at an offset into the upper half of the address space. -/
def get (i : Fin 0x8000) : Byte := (s.bank (s.number i)).get (bankOffset i)

/-- A bank is given other contents. -/
def withBank (k : Nat) (m : Memory 0x4000) : Slots :=
  { s with bank := Function.update s.bank k m }

/-- Stores a byte at an offset into the upper half of the address space. -/
def set (i : Fin 0x8000) (d : Byte) : Slots :=
  s.withBank (s.number i) ((s.bank (s.number i)).set (bankOffset i) d)

/-- Makes an empty bank. -/
def make : Slots :=
  { s.withBank s.made (Memory.zero _) with made := s.made + 1 }

/-- Leads both slots to a new bank. -/
def leadTogether : Slots :=
  let s := { s.make with lower := s.made }
  { s with upper := s.lower }

/-- Leads each of the slots to a new bank. -/
def leadApart : Slots :=
  let s := { s.make with lower := s.made }
  { s.make with upper := s.made }

/-- Stores bytes from the beginning of a bank on. -/
def fill (k : Nat) (data : List Byte) : Except Fault Unit × Slots :=
  match (s.bank k).writeAll 0 data with
  | .error fault => (.error fault, s)
  | .ok m => (.ok (), s.withBank k m)

/-- Stores bytes from the beginning of the lower half on. -/
def fillBoth (data : List Byte) : Except Fault Unit × Slots :=
  match s.fill s.lower (data.take 0x4000) with
  | (.error fault, s) => (.error fault, s)
  | (.ok (), s) => s.fill s.upper (data.drop 0x4000)

/-- Takes an image, if it fits. -/
def load (image : Array Byte) : Except Fault Unit × Slots :=
  if 0x8000 < image.size then (.error (.imageTooLarge image.size), s)
  else if 0x4000 < image.size then s.leadApart.fillBoth image.toList
  else s.leadTogether.fill s.leadTogether.lower image.toList

/-- The slots after a use of the board. -/
def after : Board.Use → Slots
  | .insert image => (s.load image).2
  | .write address data =>
    match Board.targetOf address, Byte.ofInt? data with
    | .program i, some d => s.set i d
    | _, _ => s
  | .read _ | .picture _ => s

/-! ### What slots show -/

/-- The slots refer to the banks of a cartridge, and to different ones just if it has two. -/
def Shows : Cartridge → Prop
  | .mirrored bank => s.upper = s.lower ∧ s.bank s.lower = bank
  | .split lower upper => s.upper ≠ s.lower ∧ s.bank s.lower = lower ∧ s.bank s.upper = upper

theorem shows_unloaded : unloaded.Shows .blank := ⟨rfl, rfl⟩

variable {s} {c : Cartridge}

theorem Shows.get_eq (h : s.Shows c) (i : Fin 0x8000) : s.get i = c.get i := by
  cases c with
  | mirrored bank =>
      obtain ⟨hsame, hbank⟩ := h
      rw [get, number, hsame, ite_self, hbank]
      rfl
  | split lower upper =>
      obtain ⟨-, hlower, hupper⟩ := h
      rw [get, number, Cartridge.get]
      by_cases hi : i.val < 0x4000
      · rw [if_pos hi, if_pos hi, hlower]
      · rw [if_neg hi, if_neg hi, hupper]

theorem Shows.set (h : s.Shows c) (i : Fin 0x8000) (d : Byte) : (s.set i d).Shows (c.set i d) := by
  cases c with
  | mirrored bank =>
      obtain ⟨hsame, hbank⟩ := h
      have hnumber : s.number i = s.lower := by rw [number, hsame, ite_self]
      refine ⟨hsame, ?_⟩
      show Function.update s.bank (s.number i) _ s.lower = _
      rw [hnumber, Function.update_self, hbank]
  | split lower upper =>
      obtain ⟨hdiffer, hlower, hupper⟩ := h
      rw [Cartridge.set]
      by_cases hi : i.val < 0x4000
      · have hnumber : s.number i = s.lower := if_pos hi
        rw [if_pos hi]
        refine ⟨hdiffer, ?_, ?_⟩
        · show Function.update s.bank (s.number i) _ s.lower = _
          rw [hnumber, Function.update_self, hlower]
        · show Function.update s.bank (s.number i) _ s.upper = _
          rw [hnumber, Function.update_of_ne hdiffer, hupper]
      · have hnumber : s.number i = s.upper := if_neg hi
        rw [if_neg hi]
        refine ⟨hdiffer, ?_, ?_⟩
        · show Function.update s.bank (s.number i) _ s.lower = _
          rw [hnumber, Function.update_of_ne hdiffer.symm, hlower]
        · show Function.update s.bank (s.number i) _ s.upper = _
          rw [hnumber, Function.update_self, hupper]

/-- An empty bank is filled. -/
theorem fill_of_zero {k start : Nat} {data : List Byte} {image : Array Byte}
    (hk : s.bank k = Memory.zero _) (hlength : data.length ≤ 0x4000)
    (hdata : ∀ i < 0x4000, data[i]? = image[start + i]?) :
    s.fill k data = (.ok (), s.withBank k (bankOf image start)) := by
  have hbank : bankOf image start = Memory.ofFn fun i => data[i.val]?.getD 0 :=
    Memory.ext_get fun i => by rw [bankOf, Memory.get_ofFn, Memory.get_ofFn, hdata i.val i.isLt]
  rw [fill, hk, Memory.writeAll_zero hlength, hbank]

/-- Two empty banks are filled. -/
theorem fillBoth_of_zero {image : Array Byte} (hdiffer : s.upper ≠ s.lower)
    (hlower : s.bank s.lower = Memory.zero _) (hupper : s.bank s.upper = Memory.zero _)
    (hfits : image.size ≤ 0x8000) :
    (s.fillBoth image.toList).1 = .ok () ∧
      (s.fillBoth image.toList).2.Shows (.split (bankOf image 0) (bankOf image 0x4000)) := by
  have hfirst : s.fill s.lower (image.toList.take 0x4000) =
      (.ok (), s.withBank s.lower (bankOf image 0)) := by
    refine fill_of_zero hlower (List.length_take_le _ _) fun i hi => ?_
    rw [List.getElem?_take_of_lt hi, Array.getElem?_toList, Nat.zero_add]
  have hsecond : (s.withBank s.lower (bankOf image 0)).fill s.upper (image.toList.drop 0x4000) =
      (.ok (), (s.withBank s.lower (bankOf image 0)).withBank s.upper (bankOf image 0x4000)) := by
    refine fill_of_zero ?_ ?_ fun i _ => ?_
    · exact (Function.update_of_ne hdiffer _ _).trans hupper
    · rw [List.length_drop, Array.length_toList]
      omega
    · rw [List.getElem?_drop, Array.getElem?_toList]
  have hboth : s.fillBoth image.toList = (.ok (),
      (s.withBank s.lower (bankOf image 0)).withBank s.upper (bankOf image 0x4000)) := by
    rw [fillBoth, hfirst]
    exact hsecond
  rw [hboth]
  refine ⟨rfl, hdiffer, ?_, ?_⟩
  · exact (Function.update_of_ne hdiffer.symm _ _).trans (Function.update_self ..)
  · exact Function.update_self ..

/-- Whatever the slots have referred to, an image that fits comes into new banks. -/
theorem shows_load (s : Slots) {image : Array Byte} (hfits : image.size ≤ 0x8000) :
    ∃ c, Cartridge.ofImage image = .ok c ∧ (s.load image).1 = .ok () ∧
      (s.load image).2.Shows c := by
  by_cases hlong : 0x4000 < image.size
  · refine ⟨_, Cartridge.ofImage_of_long hlong hfits, ?_⟩
    rw [load, if_neg (Nat.not_lt.mpr hfits), if_pos hlong]
    refine fillBoth_of_zero (Nat.succ_ne_self _) ?_ (Function.update_self ..) hfits
    exact (Function.update_of_ne (Nat.succ_ne_self _).symm _ _).trans (Function.update_self ..)
  · have hshort : image.size ≤ 0x4000 := Nat.le_of_not_lt hlong
    have hfill : s.leadTogether.fill s.leadTogether.lower image.toList =
        (.ok (), s.leadTogether.withBank s.leadTogether.lower (bankOf image 0)) := by
      refine fill_of_zero (Function.update_self ..) hshort fun i _ => ?_
      rw [Array.getElem?_toList, Nat.zero_add]
    refine ⟨_, Cartridge.ofImage_of_short hshort, ?_⟩
    rw [load, if_neg (Nat.not_lt.mpr hfits), if_neg hlong, hfill]
    exact ⟨rfl, rfl, Function.update_self ..⟩

theorem load_of_tooLarge (s : Slots) {image : Array Byte} (h : ¬ image.size ≤ 0x8000) :
    s.load image = (.error (.imageTooLarge image.size), s) :=
  if_pos (Nat.lt_of_not_le h)

/-! ### Histories -/

theorem Shows.after {b : Board} (h : s.Shows b.cartridge) (u : Board.Use) :
    (s.after u).Shows (b.after u).cartridge := by
  cases u with
  | insert image =>
      show (s.load image).2.Shows (b.insert image).2.cartridge
      by_cases hfits : image.size ≤ 0x8000
      · obtain ⟨c, hc, -, hshows⟩ := s.shows_load hfits
        rw [b.insert_of_ok hc]
        exact hshows
      · rw [b.insert_of_error (Cartridge.ofImage_of_tooLarge hfits), s.load_of_tooLarge hfits]
        exact h
  | read address =>
      show s.Shows (b.readAt address).2.cartridge
      rw [b.cartridge_readAt]
      exact h
  | write address data =>
      show (s.after (.write address data)).Shows (b.writeAt address data).2.cartridge
      unfold Slots.after Board.writeAt
      dsimp only
      rw [← Board.targetOf.eq_def]
      cases Board.targetOf address with
      | program i =>
          cases hd : Byte.ofInt? data with
          | none =>
              simp only [Board.writeFault?, Board.datum?, hd]
              exact h
          | some d =>
              simp only [Board.writeFault?, Board.datum?, hd]
              exact h.set i d
      | _ =>
          dsimp only
          split <;> exact h
  | picture use => exact h

/-- **Slots and cartridge show the same.**  However a board is used, its program memory is that of
two slots which are led to new banks by each image that fits. -/
theorem shows_history (us : List Board.Use) (p : Ppu) :
    (us.foldl after unloaded).Shows (us.foldl Board.after { ppu := p }).cartridge := by
  have hall : ∀ (s : Slots) (b : Board), s.Shows b.cartridge →
      (us.foldl after s).Shows (us.foldl Board.after b).cartridge := by
    induction us with
    | nil => exact fun _ _ h => h
    | cons u us ih => exact fun s b h => ih _ _ (h.after u)
  exact hall unloaded _ shows_unloaded

end Slots

end Famicom
