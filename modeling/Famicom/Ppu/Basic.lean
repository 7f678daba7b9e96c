import Famicom.Ppu.Beam
import Famicom.Ppu.Frame
import Famicom.Ppu.Register
import Famicom.Ppu.VideoMemory
import Famicom.Ppu.Latch

/-! # The picture unit

The state of the picture unit, what its registers do, and what happens at each dot.

A register access is first checked (`readFault?`, `writeFault?`) and then carried out (`read`,
`write`), and only the check looks at whether the unit is strict: a strict unit refuses accesses
that a register does not support, an indulgent one answers zero or does nothing.  `readAt`
and `writeAt` are the two together, for any address and data.

`tick` draws one dot.  As long as the beam stays in the frame it cannot fail, and it does not look
at the registers except to see whether the vertical blank is to request an interrupt. -/

namespace Famicom

/-- The state of the picture unit. -/
structure Ppu where
  /-- Whether accesses that a register does not support are refused. -/
  strict : Bool := false
  memory : VideoMemory := .zero
  /-- Sprite memory. -/
  oam : Memory 0x100 := .zero _
  frame : Frame := .black
  control : Byte := 0
  mask : Byte := 0
  status : Byte := 0
  oamAddress : Byte := 0
  scroll : Latch := {}
  address : Latch := {}
  /-- The byte that the next read of video memory through the data register yields. -/
  readBuffer : Byte := 0
  /-- The byte last written to start a transfer to sprite memory. -/
  oamDma : Byte := 0
  /-- The page of a transfer that has been requested and not been made. -/
  transferRequest : Option Byte := none
  beam : Beam := {}
  /-- Whether an interrupt has been requested and not been delivered. -/
  nmiRequested : Bool := false
deriving Repr, DecidableEq

namespace Ppu

/-- The unit after a reset: only its memories and its strictness survive. -/
def reset (p : Ppu) : Ppu where
  strict := p.strict
  memory := p.memory
  oam := p.oam

/-! ### Video memory and sprite memory through registers -/

/-- The video address that the data register accesses. -/
def videoAddress (p : Ppu) : Int := p.address.value % 0x4000

/-- Moves on to the next video address. -/
def advanceAddress (p : Ppu) : Ppu :=
  let step := if stepsByLine p.control then 32 else 1
  { p with address := { p.address with value := (p.address.value + step) % 0x4000 } }

/-- Reads video memory.  Palette entries are read at once, all other bytes through a buffer, one
read late; beside a palette entry the buffer takes the byte of the nametable under it. -/
def readData (p : Ppu) : Byte × Ppu :=
  let a := p.videoAddress
  if 0x3F00 ≤ a then
    (p.memory.read a, advanceAddress { p with readBuffer := p.memory.read (a - 0x1000) })
  else
    (p.readBuffer, advanceAddress { p with readBuffer := p.memory.read a })

/-- Writes video memory. -/
def writeData : Ppu → Byte → Ppu
  | ⟨strict, memory, oam, frame, control, mask, status, oamAddress, scroll, address, readBuffer,
      oamDma, transferRequest, beam, nmiRequested⟩, d =>
    advanceAddress ⟨strict, memory.store (address.value % 0x4000) d, oam, frame, control, mask,
      status, oamAddress, scroll, address, readBuffer, oamDma, transferRequest, beam, nmiRequested⟩

/-- Stores a byte of sprite memory and moves on to the next. -/
def writeOamByte (p : Ppu) (d : Byte) : Ppu :=
  { p with
    oam := p.oam.set p.oamAddress.toFin d
    oamAddress := p.oamAddress + 1 }

/-- Stores bytes of sprite memory one after the other. -/
def writeOam (p : Ppu) (data : List Byte) : Ppu :=
  data.foldl writeOamByte p

/-- The byte of the status register; reading it ends the vertical blank for the reader and starts
both latches anew. -/
def readStatus (p : Ppu) : Byte × Ppu :=
  (p.status,
    { p with
      status := p.status &&& ~~~vblank
      scroll := p.scroll.restart
      address := p.address.restart })

/-! ### Registers -/

/-- Why a register must not be read, if so. -/
def readFault? (p : Ppu) (r : Register) : Option Fault :=
  if p.strict && r.writeOnly then some (.writeOnlyRegister r.toInt) else none

/-- Why a register must not be written, if so. -/
def writeFault? (p : Ppu) (r : Register) : Option Fault :=
  if p.strict && r.readOnly then some (.readOnlyRegister r.toInt) else none

/-- What a read of a register yields, and what it changes. -/
def read (p : Ppu) : Register → Byte × Ppu
  | .control => (p.control, p)
  | .mask => (p.mask, p)
  | .status => p.readStatus
  | .oamAddress => (p.oamAddress, p)
  | .oamData => (p.oam.get p.oamAddress.toFin, p)
  | .scroll => (0, p)
  | .address => (0, p)
  | .data => p.readData
  | .oamDma => (p.oamDma, p)

/-- What a write of a register changes. -/
def write (p : Ppu) : Register → Byte → Ppu
  | .control, d => { p with control := d }
  | .mask, d => { p with mask := d }
  | .status, _ => p
  | .oamAddress, d => { p with oamAddress := d }
  | .oamData, d => p.writeOamByte d
  | .scroll, d => { p with scroll := p.scroll.write d.toNat }
  | .address, d => { p with address := p.address.write d.toNat }
  | .data, d => p.writeData d
  | .oamDma, d => { p with oamDma := d, transferRequest := some d }

/-- Reads the register with the given address. -/
def readAt (p : Ppu) (address : Int) : Except Fault Byte × Ppu :=
  match Register.ofInt? address with
  | none => (.error (.invalidRegister address), p)
  | some r =>
    match p.readFault? r with
    | some fault => (.error fault, p)
    | none =>
      let (d, p) := p.read r
      (.ok d, p)

/-- Writes the register with the given address; of the data the lowest eight bits count, and they
are the result. -/
def writeAt (p : Ppu) (address data : Int) : Except Fault Byte × Ppu :=
  match Register.ofInt? address with
  | none => (.error (.invalidRegister address), p)
  | some r =>
    match p.writeFault? r with
    | some fault => (.error fault, p)
    | none =>
      let d := BitVec.ofInt 8 data
      (.ok d, p.write r d)

/-- Takes the request of a transfer to sprite memory, so that it is made only once. -/
def takeTransfer (p : Ppu) : Option Byte × Ppu :=
  (p.transferRequest, { p with transferRequest := none })

/-! ### Dots -/

/-- Paints the pixel under the beam. -/
def paint : Ppu → Fin 256 → Fin 240 → Ppu
  | ⟨strict, memory, oam, frame, control, mask, status, oamAddress, scroll, address, readBuffer,
      oamDma, transferRequest, beam, nmiRequested⟩, x, y =>
    ⟨strict, memory, oam, frame.set x y (.pattern x y), control, mask, status, oamAddress, scroll,
      address, readBuffer, oamDma, transferRequest, beam, nmiRequested⟩

/-- The effect of the dot under the beam, and the step to the next dot. -/
def advance (p : Ppu) (e : Beam.Event) : Ppu :=
  let q :=
    match e with
    | .pixel x y => p.paint x y
    | .blankStarts =>
      { p with
        status := p.status ||| vblank
        nmiRequested := p.nmiRequested || enablesNmi p.control }
    | .blankEnds => { p with status := 0 }
    | .quiet => p
    | .astray => p
  { q with beam := q.beam.advance }

/-- What becomes of a dot that is left of the picture or above it.  The frame is stored line after
line, three bytes to the pixel, and cells before its first are counted from its end: a dot less
than a frame above the picture still sets the red of the pixel a frame below it, and fails at the
green, which would have to be negative. -/
def strayDot (p : Ppu) : Fault × Ppu :=
  let x := p.beam.dot
  let y := p.beam.scanline
  if (y * 256 + x) * 3 < -Memory.cellNumberBound then (.pixelUnaddressable, p)
  else if x < 0 then (.byteOutOfRange, p)
  else if h : -240 ≤ y ∧ y < 0 ∧ x < 256 then
    let column : Fin 256 := ⟨x.toNat, by omega⟩
    let line : Fin 240 := ⟨(y + 240).toNat, by omega⟩
    let pixel := p.frame.get column line
    (.byteOutOfRange,
      { p with frame := p.frame.set column line { pixel with red := BitVec.ofInt 8 x } })
  else (.pixelOutOfRange, p)

/-- Draws one dot. -/
def tick (p : Ppu) : Except Fault Unit × Ppu :=
  match p.beam.event with
  | .astray =>
    let (fault, p) := p.strayDot
    (.error fault, p)
  | e => (.ok (), p.advance e)

/-- Draws dots until their number is reached or one of them fails. -/
def tickTimes (p : Ppu) : Nat → Except Fault Unit × Ppu
  | 0 => (.ok (), p)
  | n + 1 =>
    match p.tick with
    | (.error fault, p) => (.error fault, p)
    | (.ok (), p) => p.tickTimes n

theorem tick_of_inFrame {p : Ppu} (h : p.beam.InFrame) :
    p.tick = (.ok (), p.advance p.beam.event) := by
  have := Beam.event_ne_astray h
  simp only [tick]

@[simp] theorem beam_advance (p : Ppu) (e : Beam.Event) :
    (p.advance e).beam = p.beam.advance := by
  cases e <;> rfl

/-- Dots of a beam in the frame can be drawn without end. -/
theorem tickTimes_of_inFrame {p : Ppu} (h : p.beam.InFrame) (n : Nat) :
    (p.tickTimes n).1 = .ok () ∧ (p.tickTimes n).2.beam.InFrame := by
  induction n generalizing p with
  | zero => exact ⟨rfl, h⟩
  | succ n ih =>
    simp only [tickTimes, tick_of_inFrame h]
    exact ih (by rw [beam_advance]; exact h.advance)

end Ppu

end Famicom
