import Mathlib.Data.Int.Bitwise
import Famicom.Proofs.Buffer
import Famicom.Proofs.Ppu.Picture
import Famicom.Proofs.Ppu.Store

/-! # The picture unit on unbounded integers

The picture unit of `Famicom.Ppu` keeps bytes, and its beam paints pixels.  Here it is written once
more, on integers of any size and with buffers for sprite memory and the frame.  A number is reduced
where a reduction stands in the program, and nowhere else; what is stored is whatever has become of
it, and the buffers and the video memory check where and what they are to store.

Nothing here keeps the numbers in range or the checks from failing.  That this unit does what the
other one does is shown in `Famicom.Proofs.Ppu.Simulation`, and what follows from it in
`Famicom.Proofs.Ppu.Ranges`. -/

namespace Famicom.Unbounded

/-- The state of the picture unit. -/
structure PictureUnit where
  strict : Bool
  memory : VideoMemory
  oam : Buffer
  frame : Buffer
  control : Int := 0
  mask : Int := 0
  status : Int := 0
  oamAddress : Int := 0
  scroll : Latch := {}
  address : Latch := {}
  readBuffer : Int := 0
  oamDma : Int := 0
  transferRequest : Option Int := none
  beam : Beam := {}
  nmiRequested : Bool := false
deriving Repr, DecidableEq

namespace PictureUnit

/-- The mask of the status bit of the vertical blank. -/
def vblank : Int := 0x80

/-- The video address that the data register accesses. -/
def videoAddress (u : PictureUnit) : Int := u.address.value % 0x4000

/-- A new unit beside a video memory, which may have been in use. -/
def create (strict : Bool) (memory : VideoMemory) : PictureUnit where
  strict := strict
  memory := memory
  oam := .zero 0x100
  frame := .zero 184320

/-- The unit after a reset. -/
def reset (u : PictureUnit) : PictureUnit where
  strict := u.strict
  memory := u.memory
  oam := u.oam
  frame := u.frame.replace 0 u.frame.length (.zero u.frame.length)

/-! ### Video memory and sprite memory through registers -/

def advanceAddress : Action PictureUnit Unit := modify fun u =>
  let step := if Int.land u.control 0x04 ≠ 0 then 32 else 1
  { u with address := { u.address with value := (u.address.value + step) % 0x4000 } }

def readMemory (address : Int) : Action PictureUnit Int := do
  let d ← liftExcept ((← get).memory.readChecked address)
  return d.toNat

def readData : Action PictureUnit Int := do
  let u ← get
  if 0x3F00 ≤ u.videoAddress then
    let n ← readMemory u.videoAddress
    let readBuffer ← readMemory (u.videoAddress - 0x1000)
    modify ({ · with readBuffer })
    advanceAddress
    return n
  else
    let readBuffer ← readMemory u.videoAddress
    modify ({ · with readBuffer })
    advanceAddress
    return u.readBuffer

def writeData (n : Int) : Action PictureUnit Unit := do
  let u ← get
  let memory ← liftExcept (u.memory.writeChecked u.videoAddress n)
  modify ({ · with memory })
  advanceAddress

def writeOamByte (n : Int) : Action PictureUnit Unit := do
  let u ← get
  let oam ← liftExcept (u.oam.set u.oamAddress n)
  modify fun u => { u with oam, oamAddress := (u.oamAddress + 1) % 0x100 }

def writeOam : List Byte → Action PictureUnit Unit
  | [] => pure ()
  | d :: ds => do
    writeOamByte d.toNat
    writeOam ds

def readStatus : Action PictureUnit Int := do
  let u ← get
  set { u with
    status := Int.land u.status (0xFF - vblank)
    scroll := u.scroll.restart
    address := u.address.restart }
  return u.status

/-! ### Registers -/

def readRegister (address : Int) : Action PictureUnit Int := do
  let u ← get
  if address = 0x2000 then
    return u.control
  else if address = 0x2001 then
    return u.mask
  else if address = 0x2002 then
    readStatus
  else if address = 0x2003 then
    return u.oamAddress
  else if address = 0x2004 then
    liftExcept (u.oam.get u.oamAddress)
  else if address = 0x2005 ∨ address = 0x2006 then
    if u.strict then
      throw (.writeOnlyRegister address)
    else
      return 0
  else if address = 0x2007 then
    readData
  else if address = 0x4014 then
    return u.oamDma
  else
    throw (.invalidRegister address)

/-- Writes a number, already reduced, to a register. -/
def writeReduced (address n : Int) : Action PictureUnit Unit := do
  let u ← get
  if address = 0x2000 then
    set { u with control := n }
  else if address = 0x2001 then
    set { u with mask := n }
  else if address = 0x2002 then
    if u.strict then
      throw (.readOnlyRegister address)
  else if address = 0x2003 then
    set { u with oamAddress := n }
  else if address = 0x2004 then
    writeOamByte n
  else if address = 0x2005 then
    set { u with scroll := u.scroll.write n }
  else if address = 0x2006 then
    set { u with address := u.address.write n }
  else if address = 0x2007 then
    writeData n
  else if address = 0x4014 then
    set { u with oamDma := n, transferRequest := some n }
  else
    throw (.invalidRegister address)

def writeRegister (address data : Int) : Action PictureUnit Int := do
  writeReduced address (data % 0x100)
  return data % 0x100

def takeTransfer : Action PictureUnit (Option Int) := do
  let u ← get
  set { u with transferRequest := none }
  return u.transferRequest

/-! ### Dots -/

def paintByte (i n : Int) : Action PictureUnit Unit := do
  let frame ← liftExcept ((← get).frame.set i n)
  modify ({ · with frame })

/-- Paints a pixel of the test pattern, one colour after the other. -/
def paint (x y : Int) : Action PictureUnit Unit := do
  paintByte ((y * 256 + x) * 3) x
  paintByte ((y * 256 + x) * 3 + 1) y
  paintByte ((y * 256 + x) * 3 + 2) 128

/-- The effect of the dot under the beam. -/
def drawDot : Action PictureUnit Unit := do
  let u ← get
  if u.beam.scanline < 240 ∧ u.beam.dot < 256 then
    paint u.beam.dot u.beam.scanline
  else if u.beam.dot = 1 then
    if u.beam.scanline = 241 then
      set { u with
        status := Int.lor u.status vblank
        nmiRequested := u.nmiRequested || decide (Int.land u.control 0x80 ≠ 0) }
    else if u.beam.scanline = 261 then
      set { u with status := 0 }

def tick : Action PictureUnit Unit := do
  drawDot
  modify fun u => { u with beam := u.beam.advance }

/-! ### Uses -/

/-- What a use yields. -/
inductive Reply where
  | nothing
  | number (n : Int)
  | request (page : Option Int)
deriving Repr, DecidableEq

/-- What a use of the unit does. -/
def use : Ppu.Use → Action PictureUnit Reply
  | .tick => do
    tick
    return .nothing
  | .read address => .number <$> readRegister address
  | .write address data => .number <$> writeRegister address data
  | .writeOam data => do
    writeOam data
    return .nothing
  | .takeTransfer => .request <$> takeTransfer
  | .reset => do
    modify reset
    return .nothing

/-- The unit after a use, which may have failed. -/
def after (u : PictureUnit) (x : Ppu.Use) : PictureUnit := ((use x).perform u).2

end PictureUnit

end Famicom.Unbounded
