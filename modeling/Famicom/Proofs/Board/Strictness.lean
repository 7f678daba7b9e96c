import Famicom.Proofs.Board.Quiet
import Famicom.Proofs.Ppu.Access

/-! # What strictness adds

Only checks look at whether the picture unit is strict.  So two units, or two boards, that differ in
this alone remain so, whatever is done with both (`Board.after_withStrict`): an access that a strict
unit refuses has no effect on an indulgent one.  What they answer is the same as well, except where
the strict one refuses; `Ppu.Use.refusal?` and `Board.Use.refusal?` tell of each use whether it does,
and what the indulgent one answers instead (`Board.answers_withStrict`). -/

namespace Famicom

/-! ### The picture unit -/

namespace Ppu

/-- The unit made strict or indulgent. -/
def withStrict (s : Bool) (p : Ppu) : Ppu := { p with strict := s }

section
variable (s : Bool) (p : Ppu)

@[simp] theorem read_withStrict (r : Register) :
    (p.withStrict s).read r = ((p.read r).1, (p.read r).2.withStrict s) := by
  cases r with
  | data =>
      show (p.withStrict s).readData = (p.readData.1, p.readData.2.withStrict s)
      unfold readData
      dsimp only
      by_cases h : 0x3F00 ≤ p.videoAddress
      · rw [if_pos h]
        exact if_pos h
      · rw [if_neg h]
        exact if_neg h
  | _ => rfl

@[simp] theorem write_withStrict (r : Register) (d : Byte) :
    (p.withStrict s).write r d = (p.write r d).withStrict s := by
  cases r <;> rfl

@[simp] theorem writeOam_withStrict (data : List Byte) :
    (p.withStrict s).writeOam data = (p.writeOam data).withStrict s := by
  unfold writeOam
  induction data generalizing p with
  | nil => rfl
  | cons d ds ih => exact ih (p.writeOamByte d)

theorem strayDot_withStrict :
    (p.withStrict s).strayDot = (p.strayDot.1, p.strayDot.2.withStrict s) := by
  unfold strayDot
  dsimp only [withStrict]
  split
  · rfl
  · split
    · rfl
    · split <;> rfl

theorem advance_withStrict (e : Beam.Event) :
    (p.withStrict s).advance e = (p.advance e).withStrict s := by
  cases e <;> rfl

@[simp] theorem tick_withStrict : (p.withStrict s).tick = (p.tick.1, p.tick.2.withStrict s) := by
  have hstray := p.strayDot_withStrict s
  have hadvance := p.advance_withStrict s
  have hevent : (p.withStrict s).beam.event = p.beam.event := rfl
  unfold tick
  rw [hstray, hevent]
  cases p.beam.event with
  | astray => rfl
  | _ => exact congrArg _ (hadvance _)

@[simp] theorem tickTimes_withStrict (n : Nat) :
    (p.withStrict s).tickTimes n = ((p.tickTimes n).1, (p.tickTimes n).2.withStrict s) := by
  induction n generalizing p with
  | zero => rfl
  | succ n ih =>
      rw [tickTimes, tickTimes, tick_withStrict]
      rcases p.tick with ⟨_ | _, q⟩
      · rfl
      · exact ih q

end

section
variable (p : Ppu)

/-- **Units that differ in strictness remain so.** -/
theorem after_withStrict (s : Bool) (u : Use) :
    (p.withStrict s).after u = (p.after u).withStrict s := by
  cases u with
  | tick => simp [after]
  | read a =>
      rcases Register.ofInt?_cases a with h | ⟨r, rfl⟩
      · simp [after, readAt_of_none _ h]
      · simp [after]
  | write a d =>
      rcases Register.ofInt?_cases a with h | ⟨r, rfl⟩
      · simp [after, writeAt_of_none _ h]
      · simp [after]
  | writeOam data => exact p.writeOam_withStrict s data
  | takeTransfer | reset => rfl

end

/-! ### What is refused -/

/-- The fault of an access that a strict unit refuses, and what an indulgent one answers. -/
structure Refusal where
  fault : Fault
  reply : Reply
deriving Repr, DecidableEq

/-- Whether a strict unit refuses a use: a read of one of the two latches, or a write of the status
register. -/
def Use.refusal? : Use → Option Refusal
  | read a => if a = 0x2005 ∨ a = 0x2006 then some ⟨.writeOnlyRegister a, .byte 0⟩ else none
  | write a d => if a = 0x2002 then some ⟨.readOnlyRegister a, .byte (.ofInt 8 d)⟩ else none
  | tick | writeOam _ | takeTransfer | reset => none

/-- What a strict and an indulgent unit answer to the same use. -/
def Answers (strict indulgent : Except Fault Reply) : Option Refusal → Prop
  | none => strict = indulgent
  | some refusal => strict = .error refusal.fault ∧ indulgent = .ok refusal.reply

theorem Answers.map {x y : Except Fault Reply} {refusal : Option Refusal} (h : Answers x y refusal)
    (f : Reply → Reply) :
    Answers (x.map f) (y.map f) (refusal.map fun r => { r with reply := f r.reply }) := by
  cases refusal with
  | none => exact congrArg (Except.map f) h
  | some r =>
      obtain ⟨rfl, rfl⟩ := h
      exact ⟨rfl, rfl⟩

/-- **Strictness shows in refusals only.** -/
theorem answers_withStrict (p : Ppu) (u : Use) :
    Answers ((p.withStrict true).answer u) ((p.withStrict false).answer u) u.refusal? := by
  cases u with
  | tick =>
      show Except.map _ _ = Except.map _ _
      rw [tick_withStrict, tick_withStrict]
  | read a =>
      rcases Register.ofInt?_cases a with h | ⟨r, rfl⟩
      · have hnone : (Use.read a).refusal? = none := by
          refine if_neg ?_
          rintro (rfl | rfl) <;> cases h
        rw [hnone, answer, answer, readAt_of_none _ h, readAt_of_none _ h]
        rfl
      · have hread : ∀ s, (p.withStrict s).answer (.read r.toInt) =
            ((p.withStrict s).readFault? r).elim (.ok (.byte (p.read r).1)) .error := by
          intro s
          rw [answer, readAt, Register.ofInt?_toInt]
          dsimp only
          rw [read_withStrict]
          cases (p.withStrict s).readFault? r <;> rfl
        rw [hread, hread]
        cases r <;> first | exact ⟨rfl, rfl⟩ | exact rfl
  | write a d =>
      rcases Register.ofInt?_cases a with h | ⟨r, rfl⟩
      · have hnone : (Use.write a d).refusal? = none := by
          refine if_neg ?_
          rintro rfl
          cases h
        rw [hnone, answer, answer, writeAt_of_none _ h, writeAt_of_none _ h]
        rfl
      · cases r <;> first | exact ⟨rfl, rfl⟩ | exact rfl
  | writeOam _ | takeTransfer | reset => rfl

/-- What a strict unit would refuse has no effect on any. -/
theorem after_of_refusal (p : Ppu) {u : Use} {refusal : Refusal} (h : u.refusal? = some refusal) :
    p.after u = p := by
  cases u with
  | read a =>
      by_cases ha : a = 0x2005 ∨ a = 0x2006
      · rcases ha with rfl | rfl
        · exact p.snd_readAt_toInt .scroll
        · exact p.snd_readAt_toInt .address
      · rw [Use.refusal?, if_neg ha] at h
        cases h
  | write a d =>
      by_cases ha : a = 0x2002
      · subst ha
        exact p.snd_writeAt_toInt .status d
      · rw [Use.refusal?, if_neg ha] at h
        cases h
  | tick | writeOam _ | takeTransfer | reset => cases h

end Ppu

/-! ### The board -/

namespace Board

open Ppu (Answers Refusal)

/-- The board with its picture unit made strict or indulgent. -/
def withStrict (s : Bool) (b : Board) : Board := { b with ppu := b.ppu.withStrict s }

section
variable (s : Bool) (b : Board)

@[simp] theorem read_withStrict (t : Target) :
    (b.withStrict s).read t = ((b.read t).1, (b.read t).2.withStrict s) := by
  cases t with
  | register r =>
      have hread := b.ppu.read_withStrict s r
      show (((b.ppu.withStrict s).read r).1, { b with ppu := ((b.ppu.withStrict s).read r).2 }) = _
      rw [hread]
      rfl
  | _ => rfl

@[simp] theorem write_withStrict (t : Target) (d : Byte) :
    (b.withStrict s).write t d = (b.write t d).withStrict s := by
  cases t with
  | register r =>
      have hwrite := b.ppu.write_withStrict s r d
      show { b with ppu := (b.ppu.withStrict s).write r d } = _
      rw [hwrite]
      rfl
  | _ => rfl

@[simp] theorem insert_withStrict (image : Array Byte) :
    (b.withStrict s).insert image = ((b.insert image).1, (b.insert image).2.withStrict s) := by
  obtain ⟨ram, ppu, io, saveRam, cartridge⟩ := b
  cases h : Cartridge.ofImage image <;> simp only [insert, withStrict, h]

end

/-! A refused access has no effect, so neither has the same access of an indulgent board. -/

section
variable (b : Board) {t : Target}

theorem snd_read_of_refused {fault : Fault} (h : b.readFault? t = some fault) :
    (b.read t).2 = b := by
  cases t with
  | register r =>
      have hread : b.ppu.read r = (0, b.ppu) := b.ppu.read_of_refused h
      show { b with ppu := (b.ppu.read r).2 } = b
      rw [hread]
  | _ => cases h

theorem write_of_refused {fault : Fault} (h : b.writeFault? t = some fault) (d : Byte) :
    b.write t d = b := by
  cases t with
  | register r =>
      have hwrite : b.ppu.write r d = b.ppu := b.ppu.write_of_refused h d
      show { b with ppu := b.ppu.write r d } = b
      rw [hwrite]
  | _ => cases h

theorem snd_readAt (a : Int) : (b.readAt a).2 = (b.read (decode (.ofInt 16 a))).2 := by
  unfold readAt
  dsimp only
  split
  · rename_i fault h
    rw [b.snd_read_of_refused h]
  · rfl

theorem snd_writeAt (a d : Int) :
    (b.writeAt a d).2 =
      match datum? (decode (.ofInt 16 a)) d with
      | none => b
      | some d => b.write (decode (.ofInt 16 a)) d := by
  unfold writeAt
  dsimp only
  cases hf : b.writeFault? (decode (.ofInt 16 a)) with
  | some fault =>
      cases datum? (decode (.ofInt 16 a)) d with
      | none => rfl
      | some d => exact (b.write_of_refused hf d).symm
  | none => cases datum? (decode (.ofInt 16 a)) d <;> rfl

/-- **Boards that differ in strictness remain so.** -/
theorem after_withStrict (s : Bool) (u : Use) :
    (b.withStrict s).after u = (b.after u).withStrict s := by
  cases u with
  | insert image => simp [after]
  | read a => simp [after, snd_readAt]
  | write a d =>
      rw [after, after, snd_writeAt, snd_writeAt]
      cases datum? (decode (.ofInt 16 a)) d with
      | none => rfl
      | some d => exact b.write_withStrict s _ d
  | picture u => exact congrArg ({ b with ppu := · }) (b.ppu.after_withStrict s u)

theorem foldl_after_withStrict (s : Bool) (us : List Use) :
    us.foldl after (b.withStrict s) = (us.foldl after b).withStrict s := by
  induction us generalizing b with
  | nil => rfl
  | cons u us ih =>
      rw [List.foldl_cons, after_withStrict]
      exact ih (b.after u)

end

/-! ### What is refused -/

/-- Whether a strict board refuses a use: a read of one of the two latches or a write of the status
register, wherever they are shown. -/
def Use.refusal? : Use → Option Refusal
  | insert _ => none
  | read a => (registerAddress? (.ofInt 16 a)).bind fun r => (Ppu.Use.read r).refusal?
  | write a d =>
    ((registerAddress? (.ofInt 16 a)).bind fun r => (Ppu.Use.write r d).refusal?).map
      fun refusal => { refusal with reply := .nothing }
  | picture u => u.refusal?

section
variable (b : Board) {a : Int} {r : Ppu.Register}

/-- A register answers the same through the board as by itself. -/
theorem answer_read_register (h : decode (.ofInt 16 a) = .register r) :
    b.answer (.read a) = b.ppu.answer (.read r.toInt) := by
  have hfault : b.readFault? (.register r) = b.ppu.readFault? r := rfl
  show (b.readAt a).1.map _ = (b.ppu.readAt r.toInt).1.map _
  rw [Ppu.readAt, Ppu.Register.ofInt?_toInt]
  unfold readAt
  dsimp only
  rw [h, hfault]
  cases b.ppu.readFault? r <;> rfl

theorem answer_write_register (h : decode (.ofInt 16 a) = .register r) (d : Int) :
    b.answer (.write a d) = (b.ppu.answer (.write r.toInt d)).map fun _ => .nothing := by
  have hfault : b.writeFault? (.register r) = b.ppu.writeFault? r := rfl
  show (b.writeAt a d).1.map _ = ((b.ppu.writeAt r.toInt d).1.map _).map _
  rw [Ppu.writeAt, Ppu.Register.ofInt?_toInt]
  unfold writeAt
  dsimp only
  rw [h, hfault]
  cases b.ppu.writeFault? r <;> rfl

theorem answer_read_withStrict (h : (decode (.ofInt 16 a)).IsCell) (s : Bool) :
    (b.withStrict s).answer (.read a) = b.answer (.read a) := by
  show ((b.withStrict s).readAt a).1.map _ = (b.readAt a).1.map _
  unfold readAt
  dsimp only
  rw [readFault?_of_isCell _ h, readFault?_of_isCell _ h, read_withStrict]

theorem answer_write_withStrict (h : (decode (.ofInt 16 a)).IsCell) (s : Bool) (d : Int) :
    (b.withStrict s).answer (.write a d) = b.answer (.write a d) := by
  show ((b.withStrict s).writeAt a d).1.map _ = (b.writeAt a d).1.map _
  unfold writeAt
  dsimp only
  rw [writeFault?_of_isCell _ h, writeFault?_of_isCell _ h]
  cases datum? (decode (.ofInt 16 a)) d <;> rfl

/-- **Strictness shows in refusals only**, through the board as well. -/
theorem answers_withStrict (u : Use) :
    Answers ((b.withStrict true).answer u) ((b.withStrict false).answer u) u.refusal? := by
  cases u with
  | insert image =>
      show Except.map _ _ = Except.map _ _
      rw [insert_withStrict, insert_withStrict]
  | read a =>
      rcases isCell_or_register (.ofInt 16 a) with hcell | ⟨r, hr⟩
      · rw [answer_read_withStrict _ hcell, answer_read_withStrict _ hcell, Use.refusal?,
          registerAddress?_of_isCell hcell]
        rfl
      · have hu := b.ppu.answers_withStrict (.read r.toInt)
        rw [answer_read_register _ hr, answer_read_register _ hr, Use.refusal?,
          registerAddress?_of_register hr]
        exact hu
  | write a d =>
      rcases isCell_or_register (.ofInt 16 a) with hcell | ⟨r, hr⟩
      · rw [answer_write_withStrict _ hcell, answer_write_withStrict _ hcell, Use.refusal?,
          registerAddress?_of_isCell hcell]
        rfl
      · have hu := b.ppu.answers_withStrict (.write r.toInt d)
        rw [answer_write_register _ hr, answer_write_register _ hr, Use.refusal?,
          registerAddress?_of_register hr]
        exact hu.map fun _ => .nothing
  | picture u => exact b.ppu.answers_withStrict u

/-- What a strict board would refuse has no effect on any. -/
theorem after_of_refusal {u : Use} {refusal : Refusal} (h : u.refusal? = some refusal) :
    b.after u = b := by
  cases u with
  | insert image => cases h
  | read a =>
      obtain ⟨n, hn, hrefusal⟩ := Option.bind_eq_some_iff.mp h
      rcases isCell_or_register (.ofInt 16 a) with hcell | ⟨r, hr⟩
      · rw [registerAddress?_of_isCell hcell] at hn
        cases hn
      · rw [registerAddress?_of_register hr] at hn
        cases hn
        have hafter := b.ppu.after_of_refusal hrefusal
        rw [Ppu.after, Ppu.snd_readAt_toInt] at hafter
        rw [after, snd_readAt, hr]
        exact congrArg ({ b with ppu := · }) hafter
  | write a d =>
      obtain ⟨r', hr', -⟩ := Option.map_eq_some_iff.mp h
      obtain ⟨n, hn, hrefusal⟩ := Option.bind_eq_some_iff.mp hr'
      rcases isCell_or_register (.ofInt 16 a) with hcell | ⟨r, hr⟩
      · rw [registerAddress?_of_isCell hcell] at hn
        cases hn
      · rw [registerAddress?_of_register hr] at hn
        cases hn
        have hafter := b.ppu.after_of_refusal hrefusal
        rw [Ppu.after, Ppu.snd_writeAt_toInt] at hafter
        rw [after, snd_writeAt, hr]
        exact congrArg ({ b with ppu := · }) hafter
  | picture u => exact congrArg ({ b with ppu := · }) (b.ppu.after_of_refusal h)

end

end Board

end Famicom
