import Famicom.Word

/-! # Frames

The picture: 240 lines of 256 pixels, each of three colour bytes.  Until tiles are drawn the
picture is a test pattern, in which the colour of a pixel tells its column and its line. -/

namespace Famicom

/-- The colour of a pixel. -/
structure Pixel where
  red : Byte
  green : Byte
  blue : Byte
deriving Repr, DecidableEq

/-- The colour before anything is drawn. -/
def Pixel.black : Pixel := ⟨0, 0, 0⟩

/-- The colour of the test pattern in column `x` and line `y`. -/
def Pixel.pattern (x : Fin 256) (y : Fin 240) : Pixel :=
  ⟨BitVec.ofNat 8 x, BitVec.ofNat 8 y, 128⟩

/-- The colour bytes in the order in which they are sent. -/
def Pixel.toList (p : Pixel) : List Byte := [p.red, p.green, p.blue]

/-- A picture, line by line from the top, each line from the left. -/
structure Frame where
  pixels : Vector Pixel (256 * 240)
deriving Repr, DecidableEq

namespace Frame

/-- The black picture. -/
def black : Frame := ⟨Vector.replicate _ Pixel.black⟩

/-- The place of a pixel in the order of the frame. -/
def index (x : Fin 256) (y : Fin 240) : Fin (256 * 240) := ⟨y * 256 + x, by omega⟩

/-- The colour in column `x` and line `y`. -/
def get (f : Frame) (x : Fin 256) (y : Fin 240) : Pixel := f.pixels[index x y]

/-- The frame with a pixel painted. -/
def set (f : Frame) (x : Fin 256) (y : Fin 240) (p : Pixel) : Frame :=
  ⟨f.pixels.set (index x y) p⟩

/-- The colour bytes of all pixels in order. -/
def toList (f : Frame) : List Byte := f.pixels.toList.flatMap Pixel.toList

theorem index_inj {x x' : Fin 256} {y y' : Fin 240} :
    index x y = index x' y' ↔ x = x' ∧ y = y' := by
  simp only [index, Fin.ext_iff]
  omega

@[simp, grind =] theorem get_black (x : Fin 256) (y : Fin 240) : black.get x y = .black := by
  simp [get, black]

@[simp, grind =] theorem get_set_self (f : Frame) (x : Fin 256) (y : Fin 240) (p : Pixel) :
    (f.set x y p).get x y = p := by
  simp [get, set]

theorem get_set_ne (f : Frame) {x x' : Fin 256} {y y' : Fin 240} (p : Pixel)
    (h : ¬ (x = x' ∧ y = y')) : (f.set x y p).get x' y' = f.get x' y' := by
  have hi : (index x y).val ≠ (index x' y').val := fun hv => h (index_inj.1 (Fin.ext hv))
  simp [get, set, Vector.getElem_set_ne, hi]

end Frame

end Famicom
