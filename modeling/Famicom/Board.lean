import Famicom.Bus
import Famicom.Cartridge
import Famicom.Ppu.Basic

/-! # The main board

What the processor is connected to: work memory, the picture unit, the cells of the sound and input
unit, save memory and the cartridge.  `decode` sends each address to the one thing it names, and
reading and writing is done by that thing; so two addresses with the same target cannot be told
apart.  Work memory shows four times, the eight registers of the picture unit all the way up to
`0x3FFF`.  Among the cells of the sound and input unit stands the register that starts a transfer
to sprite memory. -/

namespace Famicom

/-- What an address of the board names. -/
inductive Board.Target where
  | ram (i : Fin 0x800)
  | register (r : Ppu.Register)
  | io (i : Fin 0x20)
  | saveRam (i : Fin 0x3FE0)
  | program (i : Fin 0x8000)
deriving Repr, DecidableEq

/-- Everything on the bus of the processor. -/
structure Board where
  ram : Memory 0x800 := .zero _
  ppu : Ppu := {}
  io : Memory 0x20 := .zero _
  saveRam : Memory 0x3FE0 := .zero _
  cartridge : Cartridge := .blank
deriving Repr, DecidableEq

namespace Board

/-- The target of an address. -/
def decode (a : Word) : Target :=
  let n := a.toNat
  if n < 0x2000 then .ram ⟨n % 0x800, by omega⟩
  else if n < 0x4000 then .register (.ofIndex ⟨n % 8, by omega⟩)
  else if n = 0x4014 then .register .oamDma
  else if h : n < 0x4020 then .io ⟨n % 0x20, by omega⟩
  else if h : n < 0x8000 then .saveRam ⟨n - 0x4020, by omega⟩
  else .program ⟨n % 0x8000, by omega⟩

/-- Why a target must not be read, if so. -/
def readFault? (b : Board) : Target → Option Fault
  | .register r => b.ppu.readFault? r
  | _ => none

/-- Why a target must not be written, if so. -/
def writeFault? (b : Board) : Target → Option Fault
  | .register r => b.ppu.writeFault? r
  | _ => none

/-- The byte read from a target, and the board after it. -/
def read : Board → Target → Byte × Board
  | b, .ram i => (b.ram.get i, b)
  | ⟨ram, ppu, io, saveRam, cartridge⟩, .register r =>
    let (d, ppu) := ppu.read r
    (d, ⟨ram, ppu, io, saveRam, cartridge⟩)
  | b, .io i => (b.io.get i, b)
  | b, .saveRam i => (b.saveRam.get i, b)
  | b, .program i => (b.cartridge.get i, b)

/-- The board with a byte written to a target. -/
def write : Board → Target → Byte → Board
  | ⟨ram, ppu, io, saveRam, cartridge⟩, .ram i, d => ⟨ram.set i d, ppu, io, saveRam, cartridge⟩
  | ⟨ram, ppu, io, saveRam, cartridge⟩, .register r, d =>
    ⟨ram, ppu.write r d, io, saveRam, cartridge⟩
  | ⟨ram, ppu, io, saveRam, cartridge⟩, .io i, d => ⟨ram, ppu, io.set i d, saveRam, cartridge⟩
  | ⟨ram, ppu, io, saveRam, cartridge⟩, .saveRam i, d =>
    ⟨ram, ppu, io, saveRam.set i d, cartridge⟩
  | ⟨ram, ppu, io, saveRam, cartridge⟩, .program i, d =>
    ⟨ram, ppu, io, saveRam, cartridge.set i d⟩

instance : Bus Board where
  readFault? b a := b.readFault? (decode a)
  read b a := b.read (decode a)
  writeFault? b a := b.writeFault? (decode a)
  write b a d := b.write (decode a) d

/-- Reads at any integer address; its lowest sixteen bits count. -/
def readAt (b : Board) (address : Int) : Except Fault Byte × Board :=
  let target := decode (BitVec.ofInt 16 address)
  match b.readFault? target with
  | some fault => (.error fault, b)
  | none =>
    let (d, b) := b.read target
    (.ok d, b)

/-- The byte that a value written to a target stands for.  Memories store bytes only; the registers
of the picture unit take the lowest eight bits of any value. -/
def datum? : Target → Int → Option Byte
  | .register _, data => some (BitVec.ofInt 8 data)
  | _, data => Byte.ofInt? data

/-- Writes a value at any integer address; its lowest sixteen bits count. -/
def writeAt (b : Board) (address data : Int) : Except Fault Unit × Board :=
  let target := decode (BitVec.ofInt 16 address)
  match b.writeFault? target, datum? target data with
  | some fault, _ => (.error fault, b)
  | none, none => (.error .byteOutOfRange, b)
  | none, some d => (.ok (), b.write target d)

/-- Reads bytes at consecutive addresses, until their number is reached or one of them fails. -/
def readFrom (b : Board) (address : Int) : Nat → Except Fault (List Byte) × Board
  | 0 => (.ok [], b)
  | n + 1 =>
    match b.readAt address with
    | (.error fault, b) => (.error fault, b)
    | (.ok d, b) =>
      let (rest, b) := b.readFrom (address + 1) n
      (rest.map (d :: ·), b)

/-- Reads all bytes of a page in order. -/
def pageBytes (b : Board) (page : Byte) : Except Fault (List Byte) × Board :=
  b.readFrom (page.toNat * 256) 256

/-- Puts a cartridge with the given image in.  An image that does not fit leaves the old one. -/
def insert : Board → Array Byte → Except Fault Unit × Board
  | ⟨ram, ppu, io, saveRam, cartridge⟩, image =>
    match Cartridge.ofImage image with
    | .error fault => (.error fault, ⟨ram, ppu, io, saveRam, cartridge⟩)
    | .ok cartridge => (.ok (), ⟨ram, ppu, io, saveRam, cartridge⟩)

end Board

end Famicom
