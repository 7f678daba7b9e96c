import Famicom.Console
import Famicom.Pacer
import Famicom.Trace.Divergence
import Famicom.Trace.Journal
import Famicom.Trace.Log
import Famicom.Proofs.Activity
import Famicom.Proofs.Cpu.Timeless
import Famicom.Proofs.Cpu.Cost
import Famicom.Proofs.Clockwork
import Famicom.Proofs.Console.Deed
import Famicom.Proofs.Console.Step
import Famicom.Proofs.Console.History
import Famicom.Proofs.Console.Lockstep
import Famicom.Proofs.Footprint
import Famicom.Proofs.Cpu.Trail
import Famicom.Proofs.Cpu.Transparency
import Famicom.Proofs.Checked
import Famicom.Proofs.Cpu.Unbounded
import Famicom.Proofs.Cpu.Reduction
import Famicom.Proofs.Cpu.Simulation
import Famicom.Proofs.Cpu.Safety
import Famicom.Proofs.Cpu.StatusByte
import Famicom.Proofs.Board.Cells
import Famicom.Proofs.Cpu.FlatView
import Famicom.Proofs.Ppu.Picture
import Famicom.Proofs.Ppu.Access
import Famicom.Proofs.Ppu.VerticalBlank
import Famicom.Proofs.Ppu.Latches
import Famicom.Proofs.Cpu.Fetched
import Famicom.Proofs.Cpu.Watched
import Famicom.Proofs.Trace.Recording
import Famicom.Proofs.Text.Numeral
import Famicom.Proofs.Text.Rows
import Famicom.Proofs.Text.Spacing
import Famicom.Proofs.Text.LetterCase
import Famicom.Proofs.Trace.RoundTrip
import Famicom.Proofs.Trace.Rereading
import Famicom.Proofs.Ppu.Store
import Famicom.Proofs.Ppu.Upload
import Famicom.Proofs.Ppu.SpriteMemory
import Famicom.Proofs.Board.Aliases
import Famicom.Proofs.Board.Slots
import Famicom.Proofs.Board.Quiet
import Famicom.Proofs.Cpu.EffectiveAddress
import Famicom.Proofs.Cpu.RegisterUse
import Famicom.Proofs.Board.Strictness
import Famicom.Proofs.Console.Strictness
import Famicom.Proofs.Cpu.Stack
import Famicom.Proofs.Cpu.WholeStep
import Famicom.Proofs.Cpu.Frame
import Famicom.Proofs.Cpu.Addressing
import Famicom.Proofs.Cpu.Account
import Famicom.Proofs.Cpu.Nesting
import Famicom.Proofs.Cpu.Fused
import Famicom.Proofs.LongNumber
import Famicom.Proofs.Cpu.LongArithmetic
import Famicom.Proofs.Cpu.LongShift
import Famicom.Proofs.Cpu.Scratch
import Famicom.Proofs.Cpu.Refusal
import Famicom.Proofs.Cpu.Request
import Famicom.Proofs.Cpu.Failure
import Famicom.Proofs.Board.Pages
import Famicom.Proofs.Console.Act
import Famicom.Proofs.Console.Reset
import Famicom.Proofs.Console.Loading
import Famicom.Proofs.Console.Failure
import Famicom.Proofs.Console.Transfer
import Famicom.Proofs.Trace.Reference
import Famicom.Proofs.Trace.Divergence
import Famicom.Proofs.Console.Run
import Famicom.Proofs.Buffer
import Famicom.Proofs.BulkWrite
import Famicom.Proofs.Ppu.Unbounded
import Famicom.Proofs.Ppu.Simulation
import Famicom.Proofs.Ppu.Ranges
