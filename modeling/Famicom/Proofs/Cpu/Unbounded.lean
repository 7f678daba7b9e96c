import Mathlib.Data.Int.Bitwise
import Famicom.Proofs.Checked
import Famicom.Proofs.Cpu.Trail

/-! # The processor on unbounded integers

The processor of `Famicom.Cpu` computes on bytes and words, which cannot leave their range.  Here it
is written once more, on integers of any size.  What was modular arithmetic is now a reduction that
stands in the program, and where none stands a number stays as large as it has become: it is kept in
a register or handed to the bus as it is, and the bus checks it (`CheckedBus`).  An operation whose
operand is of a kind that it cannot work on fails as well.

Nothing here keeps this processor in range.  That it does what the other one does, and so never
leaves the range, is the subject of `Famicom.Proofs.Cpu.Simulation`. -/

namespace Famicom.Unbounded

/-! ### Registers and flags -/

/-- The flags of the processor. -/
inductive Flag where
  | carry | zero | interruptDisable | decimal | brk | unused | overflow | negative
deriving Repr, DecidableEq

/-- The bit of a flag. -/
def Flag.mask : Flag → Int
  | carry => 0x01
  | zero => 0x02
  | interruptDisable => 0x04
  | decimal => 0x08
  | brk => 0x10
  | unused => 0x20
  | overflow => 0x40
  | negative => 0x80

/-- The state of the processor. -/
structure Registers where
  a : Int
  x : Int
  y : Int
  sp : Int
  pc : Int
  flags : Int
  cycles : Nat
  breakHalts : Bool
deriving Repr, DecidableEq

namespace Registers

variable (r : Registers)

/-- Whether a flag is set. -/
def has (flag : Flag) : Bool := decide (Int.land r.flags flag.mask ≠ 0)

/-- The carry as a number. -/
def carry : Int := if r.has .carry then 1 else 0

/-- Sets a flag, or clears it. -/
def put (flag : Flag) (value : Bool) : Registers :=
  { r with flags :=
      if value then Int.lor r.flags flag.mask else Int.land r.flags (0xFF - flag.mask) }

/-- Zero and negative tell of a number. -/
def putResult (n : Int) : Registers :=
  (r.put .zero (n = 0)).put .negative (n / 0x80 % 2 = 1)

end Registers

/-- The status that an instruction puts on the stack. -/
def pushedBySoftware (flags : Int) : Int := Int.lor (Int.lor flags Flag.brk.mask) Flag.unused.mask

/-- The status that an interrupt puts on the stack, and what of it an instruction takes back. -/
def withoutBreak (flags : Int) : Int :=
  Int.lor (Int.land flags (0xFF - Flag.brk.mask)) Flag.unused.mask

/-! ### Effects on registers -/

/-- A number with a place for what is moved out of it, and the registers. -/
abbrev Change : Type := Int → Registers → Int × Registers

def shiftLeft : Change := fun n r => (n * 2 % 0x100, r.put .carry (n / 0x80 ≠ 0))

def shiftRight : Change := fun n r => (n / 2, r.put .carry (n % 2 ≠ 0))

def rotateLeft : Change := fun n r =>
  (Int.lor (n * 2) r.carry % 0x100, r.put .carry (n / 0x80 ≠ 0))

def rotateRight : Change := fun n r =>
  (Int.lor (n / 2) (r.carry * 0x80) % 0x100, r.put .carry (n % 2 ≠ 0))

def increment : Change := fun n r => ((n + 1) % 0x100, r)

def decrement : Change := fun n r => ((n - 1) % 0x100, r)

/-- A change after which zero and negative tell of the new number. -/
def Change.reported (change : Change) : Change := fun n r =>
  let (n, r) := change n r
  (n, r.putResult n)

namespace Registers

def loadA (n : Int) (r : Registers) : Registers := { r with a := n }.putResult n

def loadX (n : Int) (r : Registers) : Registers := { r with x := n }.putResult n

def loadY (n : Int) (r : Registers) : Registers := { r with y := n }.putResult n

def loadAX (n : Int) (r : Registers) : Registers := { r with a := n, x := n }.putResult n

def orA (n : Int) (r : Registers) : Registers := r.loadA (Int.lor r.a n)

def andA (n : Int) (r : Registers) : Registers := r.loadA (Int.land r.a n)

def xorA (n : Int) (r : Registers) : Registers := r.loadA (Int.xor r.a n)

/-- Adds a number and the carry to the accumulator.  The signs are compared with that of the sum as
it is before its reduction. -/
def addA (n : Int) (r : Registers) : Registers :=
  let sum := r.a + n + r.carry
  let signs := Int.land (Int.land (Int.xor r.a sum) (Int.xor n sum)) 0x80
  ((r.put .carry (0xFF < sum)).put .overflow (signs / 0x80 ≠ 0)).loadA (sum % 0x100)

def subtractA (n : Int) (r : Registers) : Registers := r.addA (Int.xor n 0xFF)

def compare (register n : Int) (r : Registers) : Registers :=
  (r.put .carry (n ≤ register)).putResult ((register - n) % 0x100)

def compareA (n : Int) (r : Registers) : Registers := r.compare r.a n

def compareX (n : Int) (r : Registers) : Registers := r.compare r.x n

def compareY (n : Int) (r : Registers) : Registers := r.compare r.y n

def testBits (n : Int) (r : Registers) : Registers :=
  ((r.put .zero (Int.land r.a n = 0)).put .overflow (n / 0x40 % 2 = 1)).put .negative (n / 0x80 ≠ 0)

end Registers

/-! ### Routines -/

/-- Something that the processor has handed to the bus. -/
inductive Request where
  | read (address : Int)
  | write (address data : Int)
deriving Repr, DecidableEq

/-- Why a routine fails. -/
inductive Failure where
  /-- The machine reports a fault. -/
  | fault (fault : Fault)
  /-- The opcode has no place in the table of instructions. -/
  | noSuchEntry
  /-- The operand is of a kind that the operation cannot work on. -/
  | noOperand
deriving Repr, DecidableEq

/-- How a routine ended on a bus. -/
structure Ending (β α : Type) where
  result : Except Failure α
  registers : Registers
  bus : β
  /-- What the bus was handed, in order, and the last of it even if the bus refused it. -/
  requests : List Request

/-- What the processor does on a bus. -/
def Routine (β α : Type) : Type := Registers → β → Ending β α

/-- The ending of going on where another routine ended. -/
def Ending.andThen {β α γ : Type} (e : Ending β α) (f : α → Routine β γ) : Ending β γ :=
  match e with
  | ⟨.error failure, r, bus, requests⟩ => ⟨.error failure, r, bus, requests⟩
  | ⟨.ok a, r, bus, requests⟩ =>
    let e := f a r bus
    { e with requests := requests ++ e.requests }

namespace Routine

variable {β : Type}

instance : Monad (Routine β) where
  pure a := fun r bus => ⟨.ok a, r, bus, []⟩
  bind p f := fun r bus => (p r bus).andThen f

instance : MonadStateOf Registers (Routine β) where
  get := fun r bus => ⟨.ok r, r, bus, []⟩
  set r := fun _ bus => ⟨.ok (), r, bus, []⟩
  modifyGet f := fun r bus => ⟨.ok (f r).1, (f r).2, bus, []⟩

def fail {α : Type} (failure : Failure) : Routine β α := fun r bus => ⟨.error failure, r, bus, []⟩

variable [CheckedBus β]

def read (address : Int) : Routine β Int := fun r bus =>
  let (result, bus) := CheckedBus.read bus address
  match result with
  | .error fault => ⟨.error (.fault fault), r, bus, [.read address]⟩
  | .ok b => ⟨.ok b.toNat, r, bus, [.read address]⟩

def write (address data : Int) : Routine β Unit := fun r bus =>
  let (result, bus) := CheckedBus.write bus address data
  match result with
  | .error fault => ⟨.error (.fault fault), r, bus, [.write address data]⟩
  | .ok () => ⟨.ok (), r, bus, [.write address data]⟩

def fetch : Routine β Int := do
  let n ← read (← get).pc
  modify fun r => { r with pc := (r.pc + 1) % 0x10000 }
  return n

/-- The number that is kept in two bytes. -/
def joined (low high : Int) : Int := Int.lor low (high * 0x100)

def fetchWord : Routine β Int := do
  let low ← fetch
  let high ← fetch
  return joined low high

/-- The address after the low byte is not reduced: no word is kept at the end of the address
space. -/
def readWord (address : Int) : Routine β Int := do
  let low ← read address
  let high ← read (address + 1)
  return joined low high

/-- The page of an address. -/
def page (address : Int) : Int := address / 0x100 % 0x100

/-- Reads a word whose high byte is in the same page as its low byte. -/
def readPointer (address : Int) : Routine β Int := do
  let low ← read address
  let high ← read (if page address = page (address + 1) then address + 1 else page address * 0x100)
  return joined low high

/-- The cell that a stack pointer denotes. -/
def stackCell (sp : Int) : Int := Int.lor 0x100 sp

def push (data : Int) : Routine β Unit := do
  let r ← get
  write (stackCell r.sp) data
  set { r with sp := (r.sp - 1) % 0x100 }

def pull : Routine β Int := do
  modify fun r => { r with sp := (r.sp + 1) % 0x100 }
  read (stackCell (← get).sp)

def pushWord (data : Int) : Routine β Unit := do
  push (data / 0x100 % 0x100)
  push (data % 0x100)

def pullWord : Routine β Int := do
  let low ← pull
  let high ← pull
  return joined low high

end Routine

open Routine

/-! ### Operands -/

/-- What an instruction works on. -/
inductive Operand where
  | none
  | accumulator
  | value (n : Int)
  /-- A cell; `crossed` tells that the index led into another page. -/
  | cell (address : Int) (crossed : Bool)
deriving Repr, DecidableEq

namespace Operand

/-- The cell an index beyond a base address. -/
def indexed (base index : Int) : Operand :=
  let address := (base + index) % 0x10000
  .cell address (page base ≠ page address)

/-- Whether an index led into another page. -/
def crossed : Operand → Bool
  | cell _ crossed => crossed
  | _ => false

variable {β : Type}

/-- The address of the operand. -/
def address : Operand → Routine β Int
  | cell address _ => pure address
  | _ => fail .noOperand

variable [CheckedBus β]

/-- Reads the operand. -/
def load : Operand → Routine β Int
  | none => fail .noOperand
  | accumulator => return (← get).a
  | value n => pure n
  | cell address _ => Routine.read address

/-- Writes the operand. -/
def store : Operand → Int → Routine β Unit
  | none, _ | value _, _ => fail .noOperand
  | accumulator, n => modify fun r => { r with a := n }
  | cell address _, n => Routine.write address n

end Operand

variable {β : Type} [CheckedBus β]

/-- Finds the operand of a mode, fetching the instruction bytes that tell of it. -/
def operandOf : Mode → Routine β Operand
  | .accumulator => pure .accumulator
  | .implied => pure .none
  | .immediate | .relative => return .value (← fetch)
  | .zeroPage => return .cell (← fetch) false
  | .zeroPageX => do
    let offset ← fetch
    return .cell ((offset + (← get).x) % 0x100) false
  | .zeroPageY => do
    let offset ← fetch
    return .cell ((offset + (← get).y) % 0x100) false
  | .absolute => do
    let base ← fetchWord
    return .cell base false
  | .absoluteX => do
    let base ← fetchWord
    return .indexed base (← get).x
  | .absoluteY => do
    let base ← fetchWord
    return .indexed base (← get).y
  | .indirect => do
    let pointer ← fetchWord
    let address ← readPointer pointer
    return .cell address false
  | .indirectX => do
    let offset ← fetch
    let address ← readPointer ((offset + (← get).x) % 0x100)
    return .cell address false
  | .indirectY => do
    let offset ← fetch
    let base ← readPointer offset
    return .indexed base (← get).y

/-! ### Operations -/

/-- What an operation does. -/
inductive Operation where
  | load (effect : Int → Registers → Registers)
  | store (value : Registers → Int)
  | alter (change : Change) (effect : Int → Registers → Registers)
  | skip
  | internal (effect : Registers → Registers)
  /-- Moves the program counter if the flag has the given value. -/
  | branch (flag : Flag) (value : Bool)
  | push (value : Registers → Int)
  | pull (effect : Int → Registers → Registers)
  | jump
  | call
  | returnFromCall
  | returnFromInterrupt
  | softwareInterrupt

/-- The operation that a mnemonic names. -/
def operationOf : Mnemonic → Operation
  | .lda => .load Registers.loadA
  | .ldx => .load Registers.loadX
  | .ldy => .load Registers.loadY
  | .lax => .load Registers.loadAX
  | .ora => .load Registers.orA
  | .and => .load Registers.andA
  | .eor => .load Registers.xorA
  | .adc => .load Registers.addA
  | .sbc => .load Registers.subtractA
  | .cmp => .load Registers.compareA
  | .cpx => .load Registers.compareX
  | .cpy => .load Registers.compareY
  | .bit => .load Registers.testBits
  | .sta => .store (·.a)
  | .stx => .store (·.x)
  | .sty => .store (·.y)
  | .aax => .store fun r => Int.land r.a r.x
  | .asl => .alter shiftLeft.reported fun _ r => r
  | .lsr => .alter shiftRight.reported fun _ r => r
  | .rol => .alter rotateLeft.reported fun _ r => r
  | .ror => .alter rotateRight.reported fun _ r => r
  | .inc => .alter increment.reported fun _ r => r
  | .dec => .alter decrement.reported fun _ r => r
  | .slo => .alter shiftLeft Registers.orA
  | .sre => .alter shiftRight Registers.xorA
  | .rla => .alter rotateLeft Registers.andA
  | .rra => .alter rotateRight Registers.addA
  | .isc => .alter increment Registers.subtractA
  | .dcp => .alter decrement Registers.compareA
  | .skb => .skip
  | .skw => .skip
  | .nop => .internal id
  | .tax => .internal fun r => r.loadX r.a
  | .tay => .internal fun r => r.loadY r.a
  | .tsx => .internal fun r => r.loadX r.sp
  | .txa => .internal fun r => r.loadA r.x
  | .tya => .internal fun r => r.loadA r.y
  | .txs => .internal fun r => { r with sp := r.x }
  | .inx => .internal fun r => r.loadX ((r.x + 1) % 0x100)
  | .iny => .internal fun r => r.loadY ((r.y + 1) % 0x100)
  | .dex => .internal fun r => r.loadX ((r.x - 1) % 0x100)
  | .dey => .internal fun r => r.loadY ((r.y - 1) % 0x100)
  | .clc => .internal (·.put .carry false)
  | .sec => .internal (·.put .carry true)
  | .cli => .internal (·.put .interruptDisable false)
  | .sei => .internal (·.put .interruptDisable true)
  | .cld => .internal (·.put .decimal false)
  | .sed => .internal (·.put .decimal true)
  | .clv => .internal (·.put .overflow false)
  | .bpl => .branch .negative false
  | .bmi => .branch .negative true
  | .bvc => .branch .overflow false
  | .bvs => .branch .overflow true
  | .bcc => .branch .carry false
  | .bcs => .branch .carry true
  | .bne => .branch .zero false
  | .beq => .branch .zero true
  | .pha => .push (·.a)
  | .php => .push fun r => pushedBySoftware r.flags
  | .pla => .pull Registers.loadA
  | .plp => .pull fun n r => { r with flags := withoutBreak n }
  | .jmp => .jump
  | .jsr => .call
  | .rts => .returnFromCall
  | .rti => .returnFromInterrupt
  | .brk => .softwareInterrupt

/-- The address that a branch goes to: the distance is a signed byte. -/
def branchTarget (pc distance : Int) : Int :=
  (pc + if Int.land distance 0x80 = 0 then distance else distance - 0x100) % 0x10000

/-- Cycles that a taken branch adds. -/
def branchCycles (pc target : Int) : Nat := if page pc = page target then 1 else 2

/-- Goes on at an address. -/
def jumpTo (address : Int) : Routine β Unit := modify fun r => { r with pc := address }

/-- Leads to the handler whose address is kept at `vector`. -/
def enterHandler (vector returnAddress : Int) (status : Int → Int) : Routine β Unit := do
  pushWord returnAddress
  Routine.push (status (← get).flags)
  modify (·.put .interruptDisable true)
  jumpTo (← readWord vector)

/-- Carries an operation out on its operand.  The result is the number of cycles added by a
branch. -/
def perform : Operation → Operand → Routine β Nat
  | .load effect, operand => do
    let n ← operand.load
    modify (effect n)
    return 0
  | .store value, operand => do
    operand.store (value (← get))
    return 0
  | .alter change effect, operand => do
    let n ← operand.load
    let r ← get
    let (n, r) := change n r
    set r
    operand.store n
    modify (effect n)
    return 0
  | .skip, _ => pure 0
  | .internal effect, _ => do
    modify effect
    return 0
  | .branch flag value, operand => do
    let distance ← operand.load
    let r ← get
    if r.has flag = value then
      let target := branchTarget r.pc distance
      jumpTo target
      return branchCycles r.pc target
    else
      return 0
  | .push value, _ => do
    Routine.push (value (← get))
    return 0
  | .pull effect, _ => do
    let n ← Routine.pull
    modify (effect n)
    return 0
  | .jump, operand => do
    jumpTo (← operand.address)
    return 0
  | .call, operand => do
    pushWord (((← get).pc - 1) % 0x10000)
    jumpTo (← operand.address)
    return 0
  | .returnFromCall, _ => do
    let address ← pullWord
    jumpTo ((address + 1) % 0x10000)
    return 0
  | .returnFromInterrupt, _ => do
    let n ← Routine.pull
    modify fun r => { r with flags := withoutBreak n }
    let address ← pullWord
    jumpTo address
    return 0
  | .softwareInterrupt, _ => do
    enterHandler 0xFFFE (((← get).pc + 1) % 0x10000) pushedBySoftware
    return 0

/-! ### Steps and interrupts -/

/-- Spends cycles. -/
def spend (cycles : Nat) : Routine β Unit :=
  modify fun r => { r with cycles := r.cycles + cycles }

/-- Carries an instruction out whose opcode has been fetched.  The result is its cycles. -/
def execute (i : Instruction) : Routine β Nat := do
  let operand ← operandOf i.mode
  let branch ← perform (operationOf i.mnemonic) operand
  let cycles := i.baseCycles + branch + (i.paysForPage && operand.crossed).toNat
  spend cycles
  return cycles

/-- Runs one instruction.  The result is its cycles, or nothing if it halts the processor. -/
def step : Routine β (Option Nat) := do
  let start ← get
  let opcode ← fetch
  if opcode = 0 ∧ start.breakHalts then
    return none
  else
    match Byte.ofInt? opcode with
    | none => fail .noSuchEntry
    | some b =>
      match Instruction.decode b with
      | none => fail (.fault (.unknownOpcode b (BitVec.ofInt 16 start.pc)))
      | some i => some <$> execute i

/-- An interrupt by way of the given vector.  The result is its cycles. -/
def interrupt (vector : Int) : Routine β Nat := do
  enterHandler vector (← get).pc withoutBreak
  spend Cpu.interruptCycles
  return Cpu.interruptCycles

/-- The interrupt that cannot be masked. -/
def nmi : Routine β Nat := interrupt 0xFFFA

/-- The interrupt that is ignored, at no cost, while it is masked. -/
def irq : Routine β Nat := do
  if (← get).has .interruptDisable then
    return 0
  else
    interrupt 0xFFFE

/-! ### Runs -/

/-- The routine that answers a call.  The result is its cycles, or nothing if it halts the
processor. -/
def routine : Cpu.Call → Routine β (Option Nat)
  | .step => step
  | .nmi => some <$> nmi
  | .irq => some <$> irq

/-- Where calls have led. -/
structure Walk (β : Type) where
  registers : Registers
  bus : β

namespace Walk

/-- The ending of a call. -/
def ending (w : Walk β) (c : Cpu.Call) : Ending β (Option Nat) := routine c w.registers w.bus

/-- One more call. -/
def call (w : Walk β) (c : Cpu.Call) : Walk β :=
  let e := w.ending c
  ⟨e.registers, e.bus⟩

/-- Calls one after the other. -/
def calls (w : Walk β) (cs : List Cpu.Call) : Walk β := cs.foldl call w

end Walk

end Famicom.Unbounded
