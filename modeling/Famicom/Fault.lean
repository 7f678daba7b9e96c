import Famicom.Word
import Famicom.Text.Numeral

/-! # Faults of the machine

Everything that can go wrong while the machine runs or is being set up, one constructor for each
cause, and the text that reports it.  Addresses in a report are those that the caller gave, so
they are integers of any size. -/

namespace Famicom

open Numeral (hexadecimal)

/-- Why an operation of the machine failed. -/
inductive Fault where
  /-- No cell of a memory has this address. -/
  | addressOutOfRange (address : Int)
  /-- A value to be stored is no byte. -/
  | byteOutOfRange
  /-- A memory cannot have a negative number of cells. -/
  | negativeSize
  /-- A memory was to have a number of cells that no cell number can express. -/
  | sizeUnaddressable
  /-- A memory was to have more cells than there is room for. -/
  | sizeUnavailable
  /-- A program image does not fit the cartridge. -/
  | imageTooLarge (size : Nat)
  /-- No instruction has this opcode; `pc` is the address it was fetched from. -/
  | unknownOpcode (opcode : Byte) (pc : Word)
  /-- No register of the picture unit has this address. -/
  | invalidRegister (address : Int)
  /-- A register that can only be read was written. -/
  | readOnlyRegister (address : Int)
  /-- A register that can only be written was read. -/
  | writeOnlyRegister (address : Int)
  /-- The beam was placed before the first cell of the frame. -/
  | pixelOutOfRange
  /-- The beam was placed so far out that no cell number can express it. -/
  | pixelUnaddressable
deriving Repr, DecidableEq

/-- The report of a fault. -/
def Fault.message : Fault → String
  | addressOutOfRange address => "address out of range: " ++ hexadecimal 4 address
  | byteOutOfRange => "byte must be in range(0, 256)"
  | negativeSize => "negative count"
  | sizeUnaddressable => "cannot fit 'int' into an index-sized integer"
  | sizeUnavailable => ""
  | imageTooLarge size => "PRG ROM too large: " ++ Numeral.decimal size ++ " bytes"
  | unknownOpcode opcode pc =>
    "unknown opcode " ++ hexadecimal 2 opcode.toNat ++ " at " ++ hexadecimal 4 pc.toNat
  | invalidRegister address => "invalid PPU register: " ++ hexadecimal 4 address
  | readOnlyRegister address => "write to read-only PPU register: " ++ hexadecimal 4 address
  | writeOnlyRegister address => "read from write-only PPU register: " ++ hexadecimal 4 address
  | pixelOutOfRange => "bytearray index out of range"
  | pixelUnaddressable => "cannot fit 'int' into an index-sized integer"

end Famicom
