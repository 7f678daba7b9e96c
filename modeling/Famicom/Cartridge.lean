import Famicom.Memory

/-! # Cartridges

The upper half of the address space shows the program memory of the cartridge.  A program of up to
16 KiB has one bank, which shows twice; a longer one has two, and 32 KiB is the most.  The bank
that shows twice is one memory: what is written through one half is read back through the other. -/

namespace Famicom

/-- Program memory, by the number of its banks. -/
inductive Cartridge where
  | mirrored (bank : Memory 0x4000)
  | split (lower upper : Memory 0x4000)
deriving Repr, DecidableEq

namespace Cartridge

/-- The cartridge that holds zero everywhere. -/
def blank : Cartridge := .mirrored (Memory.zero _)

/-- The part of an image from `start` on as the contents of a bank, filled up with zeros. -/
def bankOf (image : Array Byte) (start : Nat) : Memory 0x4000 :=
  Memory.ofFn fun i => image[start + i.val]?.getD 0

/-- The cartridge that holds an image, if the image fits. -/
def ofImage (image : Array Byte) : Except Fault Cartridge :=
  if 0x8000 < image.size then .error (.imageTooLarge image.size)
  else if 0x4000 < image.size then .ok (.split (bankOf image 0) (bankOf image 0x4000))
  else .ok (.mirrored (bankOf image 0))

/-- The place in a bank of an offset into the upper half of the address space. -/
def bankOffset (i : Fin 0x8000) : Fin 0x4000 := ⟨i.val % 0x4000, by omega⟩

/-- The byte at an offset into the upper half of the address space. -/
def get : Cartridge → Fin 0x8000 → Byte
  | mirrored bank, i => bank.get (bankOffset i)
  | split lower upper, i =>
    if i.val < 0x4000 then lower.get (bankOffset i) else upper.get (bankOffset i)

/-- The cartridge with a byte stored at an offset into the upper half of the address space. -/
def set : Cartridge → Fin 0x8000 → Byte → Cartridge
  | mirrored bank, i, d => mirrored (bank.set (bankOffset i) d)
  | split lower upper, i, d =>
    if i.val < 0x4000 then split (lower.set (bankOffset i) d) upper
    else split lower (upper.set (bankOffset i) d)

/-- Whether two offsets show the same cell. -/
def SameCell : Cartridge → Fin 0x8000 → Fin 0x8000 → Prop
  | mirrored _, i, j => i.val % 0x4000 = j.val % 0x4000
  | split _ _, i, j => i = j

theorem get_set_of_sameCell {c : Cartridge} {i j : Fin 0x8000} (d : Byte) (h : c.SameCell i j) :
    (c.set i d).get j = d := by
  cases c with
  | mirrored bank =>
    have : bankOffset j = bankOffset i := Fin.ext h.symm
    simp [get, set, this]
  | split lower upper =>
    cases (show i = j from h)
    by_cases hi : i.val < 0x4000 <;> simp [get, set, hi]

theorem get_set_of_not_sameCell {c : Cartridge} {i j : Fin 0x8000} (d : Byte)
    (h : ¬ c.SameCell i j) : (c.set i d).get j = c.get j := by
  cases c with
  | mirrored bank =>
    exact Memory.get_set_ne _ _ fun hb => h (congrArg Fin.val hb)
  | split lower upper =>
    have hij : i.val ≠ j.val := fun hv => h (Fin.ext hv)
    by_cases hi : i.val < 0x4000 <;> by_cases hj : j.val < 0x4000 <;>
      simp only [get, set, hi, hj, reduceIte] <;>
      refine Memory.get_set_ne _ _ fun hb => ?_ <;>
      have hb := congrArg Fin.val hb <;>
      simp only [bankOffset] at hb <;>
      omega

end Cartridge

end Famicom
