import Famicom.Cpu.Operand
import Famicom.Cpu.Operation

/-! # Instructions and interrupts

The programs that the processor runs: one instruction (`step`), an interrupt, a reset.  The cycles
of an instruction are those of its opcode, one for an operand in another page where the opcode pays
for that, and for a branch that is taken one or two more.  The total of cycles is brought up to date
at the very end, so an instruction that fails has cost nothing. -/

namespace Famicom

open Program

/-- The address that a branch goes to: the distance is a signed byte. -/
def branchTarget (pc : Word) (distance : Byte) : Word := pc + distance.signExtend 16

/-- Cycles that a taken branch adds. -/
def branchCycles (pc target : Word) : Nat := 1 + (pc.crossesPage target).toNat

/-- Goes on at an address. -/
def jumpTo (address : Word) : Program Unit :=
  modify fun cpu => { cpu with pc := address }

/-- Leads to the handler whose address is kept at `vector`: the program counter and the status byte
go to the stack, and further interrupts are masked. -/
def enterHandler (vector returnAddress : Word) (status : Flags → Byte) : Program Unit := do
  pushWord returnAddress
  push (status (← get).flags)
  modify (·.mapFlags ({ · with interruptDisable := true }))
  jumpTo (← readWord vector)

/-- Carries an operation out on its operand.  The result is the number of cycles added by a
branch. -/
def Operation.perform : Operation → Operand → Program Nat
  | load effect, operand => do
    let b ← operand.load
    modify (effect b)
    return 0
  | store value, operand => do
    operand.store (value (← get))
    return 0
  | alter change effect, operand => do
    let b ← operand.load
    let cpu ← get
    let (b, flags) := change b cpu.flags
    set { cpu with flags }
    operand.store b
    modify (effect b)
    return 0
  | skip, _ => pure 0
  | internal effect, _ => do
    modify effect
    return 0
  | branch taken, operand => do
    let distance ← operand.load
    let cpu ← get
    if taken cpu.flags then
      let target := branchTarget cpu.pc distance
      jumpTo target
      return branchCycles cpu.pc target
    else
      return 0
  | push value, _ => do
    Program.push (value (← get))
    return 0
  | pull effect, _ => do
    let b ← Program.pull
    modify (effect b)
    return 0
  | jump, operand => do
    jumpTo operand.address
    return 0
  | call, operand => do
    pushWord ((← get).pc - 1)
    jumpTo operand.address
    return 0
  | returnFromCall, _ => do
    let address ← pullWord
    jumpTo (address + 1)
    return 0
  | returnFromInterrupt, _ => do
    let b ← Program.pull
    modify fun cpu => { cpu with flags := .pulled b }
    let address ← pullWord
    jumpTo address
    return 0
  | softwareInterrupt, _ => do
    enterHandler Cpu.irqVector ((← get).pc + 1) Flags.pushedBySoftware
    return 0

namespace Cpu

/-- The cycles of an instruction, given its operand and the cycles added by a branch. -/
def cyclesOf (i : Instruction) (operand : Operand) (branch : Nat) : Nat :=
  i.baseCycles + branch + (i.paysForPage && operand.crossed).toNat

/-- Spends cycles. -/
def spend (cycles : Nat) : Program Unit :=
  modify fun cpu => { cpu with cycles := cpu.cycles + cycles }

/-- Carries an instruction out whose opcode has been fetched.  The result is its cycles. -/
def execute (i : Instruction) : Program Nat := do
  let operand ← i.mode.operand
  let branch ← i.mnemonic.operation.perform operand
  let cycles := cyclesOf i operand branch
  spend cycles
  return cycles

/-- Runs one instruction.  The result is its cycles, or nothing if it halts the processor. -/
def step : Program (Option Nat) := do
  let start ← get
  let opcode ← fetch
  if opcode = 0 ∧ start.breakHalts then
    return none
  else
    match Instruction.decode opcode with
    | none => fail (.unknownOpcode opcode start.pc)
    | some i => some <$> execute i

/-- An interrupt by way of the given vector.  The result is its cycles. -/
def interrupt (vector : Word) : Program Nat := do
  enterHandler vector (← get).pc Flags.pushedByInterrupt
  spend interruptCycles
  return interruptCycles

/-- The interrupt that cannot be masked. -/
def nmi : Program Nat := interrupt nmiVector

/-- The interrupt that is ignored, at no cost, while it is masked. -/
def irq : Program Nat := do
  if (← get).flags.interruptDisable then
    return 0
  else
    interrupt irqVector

/-- Starts anew, at an address or where the reset vector leads. -/
def reset (pc : Option Word) : Program Unit := do
  modify ({ · with a := 0, x := 0, y := 0, sp := 0xFD })
  let pc ←
    match pc with
    | some pc => pure pc
    | none => readWord resetVector
  modify ({ · with pc, flags := Flags.initial, cycles := interruptCycles })

end Cpu

end Famicom
