import Famicom.Proofs.Cpu.Unbounded

/-! # Numbers that are reduced in time

Bytes and words as integers (`Cpu.registers`), and what becomes of their arithmetic.  Where the
processor on unbounded integers reduces a number, the arithmetic of bytes and words goes round;
where it reduces none, there is nothing to reduce.  So each effect on registers is the same on both
(`operationOf_matches`), and so are addresses, pages and the targets of branches. -/

namespace Famicom

open Unbounded

/-- The registers as integers. -/
def Cpu.registers (c : Cpu) : Registers where
  a := c.a.toNat
  x := c.x.toNat
  y := c.y.toNat
  sp := c.sp.toNat
  pc := c.pc.toNat
  flags := c.flags.toByte.toNat
  cycles := c.cycles
  breakHalts := c.breakHalts

namespace Unbounded

/-! ### Flags -/

/-- The flag of a processor on bytes and words. -/
def Flag.get : Flag → Flags → Bool
  | carry => Flags.carry
  | zero => Flags.zero
  | interruptDisable => Flags.interruptDisable
  | decimal => Flags.decimal
  | brk => Flags.brk
  | unused => Flags.unused
  | overflow => Flags.overflow
  | negative => Flags.negative

/-- Sets or clears the flag of a processor on bytes and words. -/
def Flag.set (value : Bool) : Flag → Flags → Flags
  | carry => ({ · with carry := value })
  | zero => ({ · with zero := value })
  | interruptDisable => ({ · with interruptDisable := value })
  | decimal => ({ · with decimal := value })
  | brk => ({ · with brk := value })
  | unused => ({ · with unused := value })
  | overflow => ({ · with overflow := value })
  | negative => ({ · with negative := value })

theorem toNat_toByte (f : Flags) : f.toByte.toNat =
    f.carry.toNat + 2 * (f.zero.toNat + 2 * (f.interruptDisable.toNat + 2 * (f.decimal.toNat +
      2 * (f.brk.toNat + 2 * (f.unused.toNat + 2 * (f.overflow.toNat +
        2 * f.negative.toNat)))))) := by
  simp only [Flags.toByte, BitVec.ofBoolListLE, BitVec.toNat_concat, List.length_nil,
    BitVec.toNat_ofNat, Nat.zero_mod]
  omega

theorem Flag.get_eq (flag : Flag) (f : Flags) :
    decide (Int.land f.toByte.toNat flag.mask ≠ 0) = flag.get f := by
  rw [toNat_toByte]
  rcases f with ⟨c, z, i, d, b, u, v, n⟩
  cases flag <;> revert c z i d b u v n <;> decide +kernel

theorem Flag.toByte_set (flag : Flag) (value : Bool) (f : Flags) :
    ((flag.set value f).toByte.toNat : Int) =
      if value then Int.lor f.toByte.toNat flag.mask
      else Int.land f.toByte.toNat (0xFF - flag.mask) := by
  rw [toNat_toByte, toNat_toByte]
  rcases f with ⟨c, z, i, d, b, u, v, n⟩
  cases flag <;> revert value c z i d b u v n <;> decide +kernel

variable (c : Cpu)

theorem has_registers (flag : Flag) : c.registers.has flag = flag.get c.flags :=
  flag.get_eq c.flags

theorem put_registers (flag : Flag) (value : Bool) :
    c.registers.put flag value = (c.mapFlags (flag.set value)).registers := by
  rw [Registers.put, Cpu.registers, ← flag.toByte_set]
  rfl

theorem carry_registers : c.registers.carry = c.flags.carry.toNat := by
  rw [Registers.carry, has_registers]
  cases h : c.flags.carry <;> simp [Flag.get, h]

theorem pushedBySoftware_toByte (f : Flags) :
    pushedBySoftware f.toByte.toNat = f.pushedBySoftware.toNat := by
  have hbrk := Flag.brk.toByte_set true f
  have hunused := Flag.unused.toByte_set true (Flag.brk.set true f)
  rw [if_pos rfl] at hbrk hunused
  rw [pushedBySoftware, ← hbrk, ← hunused]
  rfl

theorem withoutBreak_toByte (f : Flags) :
    withoutBreak f.toByte.toNat = f.pushedByInterrupt.toNat := by
  have hbrk := Flag.brk.toByte_set false f
  have hunused := Flag.unused.toByte_set true (Flag.brk.set false f)
  rw [if_neg (by decide)] at hbrk
  rw [if_pos rfl] at hunused
  rw [withoutBreak, ← hbrk, ← hunused]
  rfl

theorem withoutBreak_toNat (b : Byte) : withoutBreak b.toNat = (Flags.pulled b).toByte.toNat := by
  rw [← Flags.toByte_ofByte b, withoutBreak_toByte]
  rw [Flags.toByte_ofByte]
  rfl

/-! ### Numbers that go round -/

theorem byte_add (a b : Byte) : ((a.toNat : Int) + b.toNat) % 0x100 = (a + b).toNat := by
  rw [BitVec.toNat_add]
  rfl

theorem byte_add_one (b : Byte) : ((b.toNat : Int) + 1) % 0x100 = (b + 1).toNat := by
  rw [BitVec.toNat_add]
  rfl

theorem byte_sub (a b : Byte) : ((a.toNat : Int) - b.toNat) % 0x100 = (a - b).toNat := by
  rw [BitVec.toNat_sub]
  omega

theorem byte_sub_one (b : Byte) : ((b.toNat : Int) - 1) % 0x100 = (b - 1).toNat := byte_sub b 1

theorem word_add_one (w : Word) : ((w.toNat : Int) + 1) % 0x10000 = (w + 1).toNat := by
  rw [BitVec.toNat_add]
  rfl

theorem word_sub_one (w : Word) : ((w.toNat : Int) - 1) % 0x10000 = (w - 1).toNat := by
  rw [BitVec.toNat_sub]
  show _ = (((2 ^ 16 - 1 + w.toNat) % 2 ^ 16 : Nat) : Int)
  omega

/-! ### Numbers put together -/

/-- Bits that are put beside others are added to them. -/
theorem or_eq_add {i low : Nat} (h : low < 2 ^ i) (high : Nat) :
    high * 2 ^ i ||| low = high * 2 ^ i + low := by
  rw [Nat.mul_comm]
  exact (Nat.two_pow_add_eq_or_of_lt h high).symm

theorem joined_eq (low high : Byte) :
    Routine.joined low.toNat high.toNat = (Word.ofBytes high low).toNat := by
  show ((low.toNat ||| high.toNat * 2 ^ 8 : Nat) : Int) = _
  rw [Nat.or_comm, or_eq_add low.isLt, Word.toNat_ofBytes]
  rfl

theorem stackCell_eq (sp : Byte) : Routine.stackCell sp.toNat = (Word.stackCell sp).toNat := by
  show ((1 * 2 ^ 8 ||| sp.toNat : Nat) : Int) = _
  rw [or_eq_add sp.isLt, Word.stackCell, Word.toNat_ofBytes]
  rfl

/-! ### Pages -/

theorem page_eq (a : Word) : Routine.page a.toNat = a.high.toNat := by
  have hlt := a.isLt
  rw [Routine.page, Word.toNat_high]
  omega

/-- Where the high byte of a word is read, if it must be in the page of the low byte. -/
theorem nextInPage_eq (a : Word) :
    (if Routine.page a.toNat = Routine.page ((a.toNat : Int) + 1) then (a.toNat : Int) + 1
      else Routine.page a.toNat * 0x100) = a.nextInPage.toNat := by
  have hlt := a.isLt
  rw [Word.nextInPage, Word.toNat_ofBytes, BitVec.toNat_add, Word.toNat_high, Word.toNat_low]
  show _ = ((a.toNat / 256 * 256 + (a.toNat % 256 + 1) % 256 : Nat) : Int)
  unfold Routine.page
  split <;> omega

theorem page_ne_eq (v w : Word) :
    decide (Routine.page v.toNat ≠ Routine.page w.toNat) = v.crossesPage w := by
  rw [page_eq, page_eq, Word.crossesPage, Bool.eq_iff_iff, decide_eq_true_iff, bne_iff_ne, ne_eq,
    Int.natCast_inj, BitVec.toNat_inj]

/-! ### Operands -/

/-- The operand with integers for bytes and words. -/
def operandNumber : Famicom.Operand → Operand
  | .none => .none
  | .accumulator => .accumulator
  | .value b => .value b.toNat
  | .cell address crossed => .cell address.toNat crossed

theorem crossed_operandNumber (o : Famicom.Operand) : (operandNumber o).crossed = o.crossed := by
  cases o <;> rfl

theorem indexed_eq (base : Word) (index : Byte) :
    Operand.indexed base.toNat index.toNat = operandNumber (.indexed base index) := by
  have haddress : ((base.toNat : Int) + index.toNat) % 0x10000 =
      (base + index.setWidth 16).toNat := by
    have hlt := index.isLt
    rw [BitVec.toNat_add, BitVec.toNat_setWidth]
    omega
  rw [Operand.indexed, haddress, page_ne_eq]
  rfl

theorem zeroPage_eq (offset : Byte) : (offset.toNat : Int) = (Word.zeroPage offset).toNat := by
  rw [Word.zeroPage, Word.toNat_ofBytes]
  show _ = ((0 * 256 + offset.toNat : Nat) : Int)
  omega

theorem zeroPage_add_eq (offset index : Byte) :
    ((offset.toNat : Int) + index.toNat) % 0x100 = (Word.zeroPage (offset + index)).toNat := by
  rw [byte_add, ← zeroPage_eq]

/-! ### Effects on registers -/

theorem putResult_registers (b : Byte) :
    c.registers.putResult b.toNat = (c.withResult b).registers := by
  have hlt := b.isLt
  have hzero : decide ((b.toNat : Int) = 0) = (b == 0) := by
    rw [Bool.eq_iff_iff]
    simp [BitVec.toNat_eq]
  have hnegative : decide ((b.toNat : Int) / 0x80 % 2 = 1) = b.msb := by
    rw [BitVec.msb_eq_decide, decide_eq_decide]
    omega
  rw [Registers.putResult, hzero, hnegative, put_registers, put_registers]
  rfl

theorem loadA_registers (b : Byte) : c.registers.loadA b.toNat = (c.loadA b).registers :=
  putResult_registers { c with a := b } b

theorem loadX_registers (b : Byte) : c.registers.loadX b.toNat = (c.loadX b).registers :=
  putResult_registers { c with x := b } b

theorem loadY_registers (b : Byte) : c.registers.loadY b.toNat = (c.loadY b).registers :=
  putResult_registers { c with y := b } b

theorem loadAX_registers (b : Byte) : c.registers.loadAX b.toNat = (c.loadAX b).registers :=
  putResult_registers { c with a := b, x := b } b

theorem orA_registers (b : Byte) : c.registers.orA b.toNat = (c.orA b).registers := by
  rw [Cpu.orA, ← loadA_registers, BitVec.toNat_or]
  rfl

theorem andA_registers (b : Byte) : c.registers.andA b.toNat = (c.andA b).registers := by
  rw [Cpu.andA, ← loadA_registers, BitVec.toNat_and]
  rfl

theorem xorA_registers (b : Byte) : c.registers.xorA b.toNat = (c.xorA b).registers := by
  rw [Cpu.xorA, ← loadA_registers, BitVec.toNat_xor]
  rfl

/-- The sign of a sum is the same before and after its reduction. -/
theorem overflow_eq (a b : Byte) (sum : Nat) :
    decide (Int.land (Int.land (Int.xor a.toNat sum) (Int.xor b.toNat sum)) 0x80 / 0x80 ≠ 0) =
      ((a ^^^ BitVec.ofNat 8 sum) &&& (b ^^^ BitVec.ofNat 8 sum)).msb := by
  have hsign : ∀ n : Nat, decide (((n &&& 2 ^ 7 : Nat) : Int) / 0x80 ≠ 0) = n.testBit 7 := by
    intro n
    rw [Nat.and_two_pow]
    cases n.testBit 7 <;> decide
  rw [BitVec.msb_eq_getLsbD_last, BitVec.getLsbD_and, BitVec.getLsbD_xor, BitVec.getLsbD_xor,
    BitVec.getLsbD_ofNat]
  show decide (((((a.toNat ^^^ sum) &&& (b.toNat ^^^ sum)) &&& 2 ^ 7 : Nat) : Int) / 0x80 ≠ 0) = _
  rw [hsign, Nat.testBit_and, Nat.testBit_xor, Nat.testBit_xor]
  rfl

theorem addA_registers (b : Byte) : c.registers.addA b.toNat = (c.addA b).registers := by
  obtain ⟨sum, hsum⟩ : ∃ sum, sum = c.a.toNat + b.toNat + c.flags.carry.toNat := ⟨_, rfl⟩
  have hsum' : c.registers.a + b.toNat + c.registers.carry = (sum : Int) := by
    rw [carry_registers, hsum]
    exact Eq.symm (Int.natCast_add ..)
  have hcarry : decide (0xFF < (sum : Int)) = decide (256 ≤ sum) := by
    rw [decide_eq_decide]
    omega
  have hmod : (sum : Int) % 0x100 = (BitVec.ofNat 8 sum).toNat := by
    rw [BitVec.toNat_ofNat]
    omega
  have ha : c.registers.a = c.a.toNat := rfl
  rw [Registers.addA, hsum', ha, overflow_eq, hcarry, hmod, put_registers, put_registers,
    loadA_registers, Cpu.addA]
  dsimp only
  rw [← hsum]
  rfl

theorem subtractA_registers (b : Byte) :
    c.registers.subtractA b.toNat = (c.subtractA b).registers := by
  have h : Int.xor b.toNat 0xFF = (~~~b).toNat := by
    show ((b.toNat ^^^ 0xFF : Nat) : Int) = _
    rw [← BitVec.xor_allOnes, BitVec.toNat_xor]
    rfl
  rw [Cpu.subtractA, ← addA_registers, Registers.subtractA, h]

theorem compare_registers (register b : Byte) :
    c.registers.compare register.toNat b.toNat = (c.compare register b).registers := by
  have hcarry : decide ((b.toNat : Int) ≤ register.toNat) = decide (b ≤ register) := by
    rw [decide_eq_decide, BitVec.le_def]
    omega
  rw [Registers.compare, hcarry, byte_sub, put_registers, putResult_registers]
  rfl

theorem testBits_registers (b : Byte) :
    c.registers.testBits b.toNat = (c.testBits b).registers := by
  have hlt := b.isLt
  have hzero : decide (Int.land c.registers.a b.toNat = 0) = (c.a &&& b == 0) := by
    show decide (((c.a.toNat &&& b.toNat : Nat) : Int) = 0) = _
    rw [← BitVec.toNat_and, Bool.eq_iff_iff]
    simp [BitVec.toNat_eq]
  have hoverflow : decide ((b.toNat : Int) / 0x40 % 2 = 1) = b.getLsbD 6 := by
    rw [BitVec.getLsbD, Nat.testBit_eq_decide_div_mod_eq, decide_eq_decide]
    omega
  have hnegative : decide ((b.toNat : Int) / 0x80 ≠ 0) = b.msb := by
    rw [BitVec.msb_eq_decide, decide_eq_decide]
    omega
  rw [Registers.testBits, hzero, hoverflow, hnegative, put_registers, put_registers, put_registers]
  rfl

/-- A change does to a number what the other does to a byte. -/
def Change.Matches (change' : Change) (change : Flags.Change) : Prop :=
  ∀ (b : Byte) (c : Cpu), change' b.toNat c.registers =
    (((change b c.flags).1.toNat : Int), ({ c with flags := (change b c.flags).2 } : Cpu).registers)

variable {b : Byte}

theorem highest_eq : decide ((b.toNat : Int) / 0x80 ≠ 0) = decide (128 ≤ b.toNat) := by
  have hlt := b.isLt
  rw [decide_eq_decide]
  omega

theorem lowest_eq : decide ((b.toNat : Int) % 2 ≠ 0) = (b.toNat % 2 == 1) := by
  rw [Bool.eq_iff_iff, decide_eq_true_iff, beq_iff_eq]
  omega

theorem shiftLeft_matches : shiftLeft.Matches Flags.shiftLeft := by
  intro b c
  have hn : (b.toNat : Int) * 2 % 0x100 = (BitVec.ofNat 8 (b.toNat * 2)).toNat := by
    rw [BitVec.toNat_ofNat]
    omega
  rw [shiftLeft, hn, highest_eq, put_registers]
  rfl

theorem shiftRight_matches : shiftRight.Matches Flags.shiftRight := by
  intro b c
  have hlt := b.isLt
  have hn : (b.toNat : Int) / 2 = (BitVec.ofNat 8 (b.toNat / 2)).toNat := by
    rw [BitVec.toNat_ofNat]
    omega
  rw [shiftRight, hn, lowest_eq, put_registers]
  rfl

theorem rotateLeft_matches : rotateLeft.Matches Flags.rotateLeft := by
  intro b c
  have hn : Int.lor (b.toNat * 2) c.registers.carry % 0x100 =
      (BitVec.ofNat 8 (b.toNat * 2 + c.flags.carry.toNat)).toNat := by
    rw [carry_registers, BitVec.toNat_ofNat]
    show ((b.toNat * 2 ^ 1 ||| c.flags.carry.toNat : Nat) : Int) % 0x100 = _
    rw [or_eq_add c.flags.carry.toNat_lt]
    rfl
  rw [rotateLeft, hn, highest_eq, put_registers]
  rfl

theorem rotateRight_matches : rotateRight.Matches Flags.rotateRight := by
  intro b c
  have hlt := b.isLt
  have hn : Int.lor (b.toNat / 2) (c.registers.carry * 0x80) % 0x100 =
      (BitVec.ofNat 8 (b.toNat / 2 + c.flags.carry.toNat * 128)).toNat := by
    rw [carry_registers, BitVec.toNat_ofNat, Nat.add_comm]
    show ((b.toNat / 2 ||| c.flags.carry.toNat * 2 ^ 7 : Nat) : Int) % 0x100 = _
    rw [Nat.or_comm, or_eq_add (by omega)]
    rfl
  rw [rotateRight, hn, lowest_eq, put_registers]
  rfl

theorem increment_matches : increment.Matches Flags.increment := by
  intro b c
  rw [increment, byte_add_one]
  rfl

theorem decrement_matches : decrement.Matches Flags.decrement := by
  intro b c
  rw [decrement, byte_sub_one]
  rfl

theorem Change.Matches.reported {change' : Change} {change : Flags.Change}
    (h : change'.Matches change) : change'.reported.Matches change.reported := by
  intro b c
  rw [Change.reported, h]
  dsimp only
  rw [putResult_registers]
  rfl

/-! ### Operations -/

/-- An operation does on integers what the other does on bytes and words. -/
inductive Operation.Matches : Operation → Famicom.Operation → Prop where
  | load {effect' effect} (h : ∀ (c : Cpu) (b : Byte),
      effect' b.toNat c.registers = (effect b c).registers) : Matches (.load effect') (.load effect)
  | store {value' : Registers → Int} {value : Cpu → Byte}
      (h : ∀ c : Cpu, value' c.registers = (value c).toNat) : Matches (.store value') (.store value)
  | alter {change' change effect' effect} (hchange : Change.Matches change' change)
      (heffect : ∀ (c : Cpu) (b : Byte), effect' b.toNat c.registers = (effect b c).registers) :
      Matches (.alter change' effect') (.alter change effect)
  | skip : Matches .skip .skip
  | internal {effect' effect} (h : ∀ c : Cpu, effect' c.registers = (effect c).registers) :
      Matches (.internal effect') (.internal effect)
  | branch {flag value taken} (h : ∀ f : Flags, taken f = decide (Flag.get flag f = value)) :
      Matches (.branch flag value) (.branch taken)
  | push {value' : Registers → Int} {value : Cpu → Byte}
      (h : ∀ c : Cpu, value' c.registers = (value c).toNat) : Matches (.push value') (.push value)
  | pull {effect' effect} (h : ∀ (c : Cpu) (b : Byte),
      effect' b.toNat c.registers = (effect b c).registers) : Matches (.pull effect') (.pull effect)
  | jump : Matches .jump .jump
  | call : Matches .call .call
  | returnFromCall : Matches .returnFromCall .returnFromCall
  | returnFromInterrupt : Matches .returnFromInterrupt .returnFromInterrupt
  | softwareInterrupt : Matches .softwareInterrupt .softwareInterrupt

theorem set_eq_not (v : Bool) : (!v) = decide (v = false) := by cases v <;> rfl

theorem set_eq (v : Bool) : v = decide (v = true) := by cases v <;> rfl

theorem toNat_and (a b : Byte) : Int.land a.toNat b.toNat = (a &&& b).toNat := by
  rw [BitVec.toNat_and]
  rfl

theorem operationOf_matches : ∀ m : Mnemonic, (operationOf m).Matches m.operation
  | .lda => .load loadA_registers
  | .ldx => .load loadX_registers
  | .ldy => .load loadY_registers
  | .lax => .load loadAX_registers
  | .ora => .load orA_registers
  | .and => .load andA_registers
  | .eor => .load xorA_registers
  | .adc => .load addA_registers
  | .sbc => .load subtractA_registers
  | .cmp => .load fun c b => compare_registers c c.a b
  | .cpx => .load fun c b => compare_registers c c.x b
  | .cpy => .load fun c b => compare_registers c c.y b
  | .bit => .load testBits_registers
  | .sta => .store fun _ => rfl
  | .stx => .store fun _ => rfl
  | .sty => .store fun _ => rfl
  | .aax => .store fun c => toNat_and c.a c.x
  | .asl => .alter shiftLeft_matches.reported fun _ _ => rfl
  | .lsr => .alter shiftRight_matches.reported fun _ _ => rfl
  | .rol => .alter rotateLeft_matches.reported fun _ _ => rfl
  | .ror => .alter rotateRight_matches.reported fun _ _ => rfl
  | .inc => .alter increment_matches.reported fun _ _ => rfl
  | .dec => .alter decrement_matches.reported fun _ _ => rfl
  | .slo => .alter shiftLeft_matches orA_registers
  | .sre => .alter shiftRight_matches xorA_registers
  | .rla => .alter rotateLeft_matches andA_registers
  | .rra => .alter rotateRight_matches addA_registers
  | .isc => .alter increment_matches subtractA_registers
  | .dcp => .alter decrement_matches fun c b => compare_registers c c.a b
  | .skb => .skip
  | .skw => .skip
  | .nop => .internal fun _ => rfl
  | .tax => .internal fun c => loadX_registers c c.a
  | .tay => .internal fun c => loadY_registers c c.a
  | .tsx => .internal fun c => loadX_registers c c.sp
  | .txa => .internal fun c => loadA_registers c c.x
  | .tya => .internal fun c => loadA_registers c c.y
  | .txs => .internal fun _ => rfl
  | .inx => .internal fun c => by
      rw [← loadX_registers, ← byte_add_one]
      rfl
  | .iny => .internal fun c => by
      rw [← loadY_registers, ← byte_add_one]
      rfl
  | .dex => .internal fun c => by
      rw [← loadX_registers, ← byte_sub_one]
      rfl
  | .dey => .internal fun c => by
      rw [← loadY_registers, ← byte_sub_one]
      rfl
  | .clc => .internal fun c => put_registers c .carry false
  | .sec => .internal fun c => put_registers c .carry true
  | .cli => .internal fun c => put_registers c .interruptDisable false
  | .sei => .internal fun c => put_registers c .interruptDisable true
  | .cld => .internal fun c => put_registers c .decimal false
  | .sed => .internal fun c => put_registers c .decimal true
  | .clv => .internal fun c => put_registers c .overflow false
  | .bpl => .branch fun f => set_eq_not f.negative
  | .bmi => .branch fun f => set_eq f.negative
  | .bvc => .branch fun f => set_eq_not f.overflow
  | .bvs => .branch fun f => set_eq f.overflow
  | .bcc => .branch fun f => set_eq_not f.carry
  | .bcs => .branch fun f => set_eq f.carry
  | .bne => .branch fun f => set_eq_not f.zero
  | .beq => .branch fun f => set_eq f.zero
  | .pha => .push fun _ => rfl
  | .php => .push fun c => pushedBySoftware_toByte c.flags
  | .pla => .pull loadA_registers
  | .plp => .pull fun c b => by
      rw [withoutBreak_toNat]
      rfl
  | .jmp => .jump
  | .jsr => .call
  | .rts => .returnFromCall
  | .rti => .returnFromInterrupt
  | .brk => .softwareInterrupt

/-! ### Branches -/

theorem toNat_signExtend (d : Byte) :
    (d.signExtend 16).toNat = if d.toNat < 128 then d.toNat else d.toNat + 0xFF00 := by
  revert d
  decide +kernel

theorem land_sign_eq_zero_iff (d : Byte) : Int.land d.toNat 0x80 = 0 ↔ d.toNat < 128 := by
  revert d
  decide +kernel

theorem branchTarget_eq (pc : Word) (distance : Byte) :
    branchTarget pc.toNat distance.toNat = (Famicom.branchTarget pc distance).toNat := by
  have hlt := distance.isLt
  rw [branchTarget, Famicom.branchTarget, BitVec.toNat_add, toNat_signExtend]
  by_cases h : distance.toNat < 128
  · rw [if_pos h, if_pos ((land_sign_eq_zero_iff distance).mpr h)]
    omega
  · rw [if_neg h, if_neg (mt (land_sign_eq_zero_iff distance).mp h)]
    omega

theorem branchCycles_eq (pc target : Word) :
    branchCycles pc.toNat target.toNat = Famicom.branchCycles pc target := by
  rw [branchCycles, Famicom.branchCycles, ← page_ne_eq]
  by_cases h : Routine.page pc.toNat = Routine.page target.toNat
  · rw [if_pos h, decide_eq_false (not_not.mpr h)]
    rfl
  · rw [if_neg h, decide_eq_true h]
    rfl

end Unbounded

end Famicom
