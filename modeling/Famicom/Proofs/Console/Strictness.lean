import Famicom.Proofs.Board.Strictness
import Famicom.Proofs.Clockwork
import Famicom.Proofs.Console.History

/-! # Histories without refusals

A strict console is there to find mistakes: it does what an indulgent one does, except that it stops
where an access is refused.  As long as nothing is refused (`Spared`), the two cannot be told apart.
This is shown for one part of the console after the other: what the processor does
(`Activity.run_withStrict`), pages and transfers (`Board.OnlyRefuses`), a step, a run; and from it,
call by call, for whole histories (`Console.transcript_withStrict`). -/

namespace Famicom

/-- The fault is that of an access which only a strict unit refuses. -/
def Fault.IsRefusal : Fault → Prop
  | readOnlyRegister _ | writeOnlyRegister _ => True
  | addressOutOfRange _ | byteOutOfRange | negativeSize | sizeUnaddressable | sizeUnavailable
  | imageTooLarge _ | unknownOpcode _ _ | invalidRegister _ | pixelOutOfRange
  | pixelUnaddressable => False

/-- The result is not that of a refusal. -/
def Spared {α : Type} : Except Fault α → Prop
  | .ok _ => True
  | .error fault => ¬ fault.IsRefusal

theorem spared_map {α γ : Type} {r : Except Fault α} {f : α → γ} : Spared (r.map f) ↔ Spared r := by
  cases r <;> exact Iff.rfl

/-! ### Accesses of the board -/

namespace Board

theorem isRefusal_of_readFault? {b : Board} {t : Target} {fault : Fault}
    (h : b.readFault? t = some fault) : fault.IsRefusal := by
  cases t with
  | register r =>
      have hr : b.ppu.readFault? r = some fault := h
      unfold Ppu.readFault? at hr
      split at hr
      · cases hr
        trivial
      · cases hr
  | _ => cases h

theorem isRefusal_of_writeFault? {b : Board} {t : Target} {fault : Fault}
    (h : b.writeFault? t = some fault) : fault.IsRefusal := by
  cases t with
  | register r =>
      have hr : b.ppu.writeFault? r = some fault := h
      unfold Ppu.writeFault? at hr
      split at hr
      · cases hr
        trivial
      · cases hr
  | _ => cases h

theorem indulgent_withStrict (b : Board) : (b.withStrict false).Indulgent := rfl

/-- To make the board indulgent does not change what an operation does, unless it is refused. -/
def OnlyRefuses {α : Type} (f : Board → Except Fault α × Board) : Prop :=
  ∀ b, Spared (f b).1 → f (b.withStrict false) = ((f b).1, (f b).2.withStrict false)

theorem onlyRefuses_readAt (a : Int) : OnlyRefuses fun b => b.readAt a := by
  intro b h
  dsimp only at h ⊢
  unfold readAt at h ⊢
  dsimp only at h ⊢
  rw [readFault?_of_indulgent b.indulgent_withStrict, read_withStrict]
  cases hf : b.readFault? (decode (.ofInt 16 a)) with
  | some fault =>
      rw [hf] at h
      exact absurd (isRefusal_of_readFault? hf) h
  | none => rfl

theorem onlyRefuses_writeAt (a d : Int) : OnlyRefuses fun b => b.writeAt a d := by
  intro b h
  dsimp only at h ⊢
  unfold writeAt at h ⊢
  dsimp only at h ⊢
  rw [writeFault?_of_indulgent b.indulgent_withStrict]
  cases hf : b.writeFault? (decode (.ofInt 16 a)) with
  | some fault =>
      rw [hf] at h
      exact absurd (isRefusal_of_writeFault? hf) h
  | none =>
      cases datum? (decode (.ofInt 16 a)) d with
      | none => rfl
      | some d => exact congrArg (Except.ok (), ·) (b.write_withStrict false _ d)

theorem onlyRefuses_readFrom (a : Int) (n : Nat) : OnlyRefuses fun b => b.readFrom a n := by
  induction n generalizing a with
  | zero => exact fun b _ => rfl
  | succ n ih =>
      intro b h
      have hfirst := onlyRefuses_readAt a b
      dsimp only at h hfirst ⊢
      rw [readFrom] at h ⊢
      rw [readFrom]
      rcases hr : b.readAt a with ⟨fault | d, b'⟩
      · rw [hr] at h hfirst
        rw [hfirst h]
      · rw [hr] at h hfirst
        have hrest := ih (a + 1) b' (spared_map.mp h)
        dsimp only at hrest
        rw [hfirst trivial]
        dsimp only
        rw [hrest]

end Board

open Board (OnlyRefuses)

/-! ### The processor -/

/-- What the processor does on a strict board it does on an indulgent one, unless it is refused. -/
theorem Activity.run_withStrict {α : Type} {t : Activity α} {b : Board}
    (h : Spared (t.run b).result) :
    t.run (b.withStrict false) = { t.run b with bus := (t.run b).bus.withStrict false } := by
  have hread : ∀ (b : Board) (a : Word), Bus.readFault? (b.withStrict false) a = none ∧
      Bus.read (b.withStrict false) a =
        ((Bus.read b a).1, (Bus.read b a).2.withStrict false) := by
    intro b a
    constructor
    · exact Board.readFault?_of_indulgent b.indulgent_withStrict _
    · exact b.read_withStrict false _
  induction t generalizing b with
  | done c a => rfl
  | fail c fault => rfl
  | fetch c next ih =>
      obtain ⟨hf, hr⟩ := hread b c.pc
      unfold run at h ⊢
      rw [hf, hr]
      split at h
      · rename_i fault hfault
        exact absurd (Board.isRefusal_of_readFault? hfault) h
      · exact congrArg (Outcome.after _) (ih _ h)
  | read c a next ih =>
      obtain ⟨hf, hr⟩ := hread b a
      unfold run at h ⊢
      rw [hf, hr]
      split at h
      · rename_i fault hfault
        exact absurd (Board.isRefusal_of_readFault? hfault) h
      · exact congrArg (Outcome.after _) (ih _ h)
  | write c a d next ih =>
      have hf : Bus.writeFault? (b.withStrict false) a = none :=
        Board.writeFault?_of_indulgent b.indulgent_withStrict _
      have hw : Bus.write (b.withStrict false) a d = (Bus.write b a d).withStrict false :=
        b.write_withStrict false _ d
      unfold run at h ⊢
      rw [hf, hw]
      split at h
      · rename_i fault hfault
        exact absurd (Board.isRefusal_of_writeFault? hfault) h
      · exact congrArg (Outcome.after _) (ih () h)

theorem Program.run_withStrict {α : Type} (p : Program α) (cpu : Cpu) (b : Board)
    (h : Spared (p.run cpu b).result) :
    p.run cpu (b.withStrict false) =
      { p.run cpu b with bus := (p.run cpu b).bus.withStrict false } :=
  Activity.run_withStrict h

/-! ### The parts of a step -/

namespace Console

theorem storeOam_withStrict (b : Board) (bytes : List Byte) :
    storeOam (b.withStrict false) bytes = (storeOam b bytes).withStrict false :=
  congrArg ({ b with ppu := · }) (b.ppu.writeOam_withStrict false bytes)

theorem onlyRefuses_transferOam : OnlyRefuses transferOam := by
  intro b h
  have hrequest : (b.withStrict false).ppu.transferRequest = b.ppu.transferRequest := rfl
  cases hr : b.ppu.transferRequest with
  | none =>
      rw [hr] at hrequest
      rw [transferOam_of_none hr, transferOam_of_none hrequest]
  | some page =>
      rw [hr] at hrequest
      have hwithout : withoutRequest (b.withStrict false) = (withoutRequest b).withStrict false :=
        rfl
      have hpage : Spared ((withoutRequest b).pageBytes page).1 → _ :=
        Board.onlyRefuses_readFrom (page.toNat * 256) 256 (withoutRequest b)
      dsimp only at hpage
      rw [← Board.pageBytes, ← Board.pageBytes] at hpage
      rw [transferOam_of_some hr] at h ⊢
      rw [transferOam_of_some hrequest, hwithout]
      rcases hp : (withoutRequest b).pageBytes page with ⟨fault | bytes, b'⟩
      · rw [hp] at h hpage
        rw [hpage h]
      · rw [hp] at hpage
        rw [hpage trivial]
        exact congrArg (Except.ok transferCycles, ·) (storeOam_withStrict b' bytes)

theorem draw_withStrict (b : Board) (cycles : Nat) :
    draw (b.withStrict false) cycles = ((draw b cycles).1, (draw b cycles).2.withStrict false) := by
  have hdots := b.ppu.tickTimes_withStrict false (cycles * dotsPerCycle)
  show (((b.ppu.withStrict false).tickTimes (cycles * dotsPerCycle)).1,
    { b with ppu := ((b.ppu.withStrict false).tickTimes (cycles * dotsPerCycle)).2 }) = _
  rw [hdots]
  rfl

theorem deliverNmi_withStrict (cpu : Cpu) (b : Board) (h : Spared (deliverNmi cpu b).1) :
    deliverNmi cpu (b.withStrict false) =
      ((deliverNmi cpu b).1, (deliverNmi cpu b).2.1, (deliverNmi cpu b).2.2.withStrict false) := by
  have htake : takeNmi (b.withStrict false) = ((takeNmi b).1, (takeNmi b).2.withStrict false) := rfl
  unfold deliverNmi at h ⊢
  rw [htake]
  rcases ht : takeNmi b with ⟨_ | _, b'⟩
  · rfl
  · rw [ht] at h
    have hrun := Program.run_withStrict Cpu.nmi cpu b' h
    dsimp only
    rw [hrun]
    rfl

/-- The console with its picture unit made strict or indulgent. -/
def withStrict (s : Bool) (c : Console) : Console := { c with board := c.board.withStrict s }

theorem settle_withStrict {cpu : Cpu} {b : Board} {cycles : Nat}
    (h : Spared (settle cpu b cycles).1) :
    settle cpu (b.withStrict false) cycles =
      ((settle cpu b cycles).1, (settle cpu b cycles).2.withStrict false) := by
  have htransfer := onlyRefuses_transferOam b
  unfold settle at h ⊢
  rcases ht : transferOam b with ⟨fault | transfer, b'⟩
  · rw [ht] at h htransfer
    rw [htransfer h]
    rfl
  · rw [ht] at h htransfer
    rw [htransfer trivial]
    dsimp only at h ⊢
    rw [draw_withStrict]
    rcases hdraw : draw b' (cycles + transfer) with ⟨fault | _, b''⟩
    · rfl
    · rw [hdraw] at h
      dsimp only at h ⊢
      have hnmi := deliverNmi_withStrict cpu b''
      rcases hd : deliverNmi cpu b'' with ⟨fault | owed, cpu', b₃⟩
      · rw [hd] at h hnmi
        rw [hnmi h]
        rfl
      · rw [hd] at h hnmi
        rw [hnmi trivial]
        rfl

/-! ### Operations -/

theorem step_withStrict {c : Console} (h : Spared c.step.result) :
    (c.withStrict false).step = { c.step with console := c.step.console.withStrict false } := by
  obtain ⟨cpu, board, owed⟩ := c
  have hrun := Program.run_withStrict Cpu.step cpu board
  show step ⟨cpu, board.withStrict false, owed⟩ = _
  unfold step at h ⊢
  dsimp only at h ⊢
  rcases ho : Cpu.step.run cpu board with ⟨fault | _ | cycles, cpu', board', accesses⟩
  · rw [ho] at h hrun
    rw [hrun h]
    rfl
  · rw [ho] at hrun
    rw [hrun trivial]
    rfl
  · rw [ho] at h hrun
    rw [hrun trivial]
    dsimp only at h ⊢
    rw [settle_withStrict (spared_map.mp h)]
    rfl

theorem reset_withStrict {c : Console} {pc : Option Word} (h : Spared (c.reset pc).result) :
    (c.withStrict false).reset pc =
      { c.reset pc with console := (c.reset pc).console.withStrict false } := by
  obtain ⟨cpu, ⟨ram, ppu, io, saveRam, cartridge⟩, owed⟩ := c
  have hboard : (⟨ram, (ppu.withStrict false).reset, io, saveRam, cartridge⟩ : Board) =
      Board.withStrict false ⟨ram, ppu.reset, io, saveRam, cartridge⟩ := rfl
  have hrun := Program.run_withStrict (Cpu.reset pc) cpu ⟨ram, ppu.reset, io, saveRam, cartridge⟩
  show reset ⟨cpu, ⟨ram, ppu.withStrict false, io, saveRam, cartridge⟩, owed⟩ pc = _
  unfold reset at h ⊢
  dsimp only at h ⊢
  rw [hboard]
  rcases ho : (Cpu.reset pc).run cpu (⟨ram, ppu.reset, io, saveRam, cartridge⟩ : Board) with
    ⟨fault | _, cpu', board', accesses⟩
  · rw [ho] at h hrun
    rw [hrun h]
    rfl
  · rw [ho] at hrun
    rw [hrun trivial]
    rfl

theorem insert_withStrict {c : Console} {image : Array Byte} {pc : Option Word}
    (h : Spared (c.insert image pc).result) :
    (c.withStrict false).insert image pc =
      { c.insert image pc with console := (c.insert image pc).console.withStrict false } := by
  obtain ⟨cpu, board, owed⟩ := c
  have himage := board.insert_withStrict false image
  show insert ⟨cpu, board.withStrict false, owed⟩ image pc = _
  unfold insert at h ⊢
  dsimp only at h ⊢
  rw [himage]
  rcases hi : board.insert image with ⟨fault | _, board'⟩
  · rfl
  · rw [hi] at h
    exact reset_withStrict h

theorem runFrom_withStrict {σ : Type} {hooks : Hooks σ} {limit : Option Int} {n : Nat} {c : Console}
    {s : σ} {fuel : Nat}
    (h : ∀ fault, (runFrom hooks limit n c s fuel).1 = .failed fault → ¬ fault.IsRefusal) :
    runFrom hooks limit n (c.withStrict false) s fuel =
      ((runFrom hooks limit n c s fuel).1, (runFrom hooks limit n c s fuel).2.1.withStrict false,
        (runFrom hooks limit n c s fuel).2.2) := by
  induction fuel generalizing n c s with
  | zero => rfl
  | succ fuel ih =>
      have hstep := step_withStrict (c := c)
      unfold runFrom at h ⊢
      cases hlimit : atLimit limit n with
      | true => rfl
      | false =>
          rcases hask : hooks.ask s with ⟨_ | _, s'⟩
          · rw [hlimit, hask] at h
            rcases hs : c.step with ⟨fault | _ | cycles, c', notices⟩
            · rw [hs] at h hstep
              rw [hstep (h fault rfl)]
              rfl
            · rw [hs] at hstep
              rw [hstep trivial]
              rfl
            · rw [hs] at h hstep
              rw [hstep trivial]
              exact ih h
          · rfl

end Console

/-! ### Histories -/

namespace Call

/-- What a call yields. -/
inductive Reply : Type 1 where
  | started (result : Except Fault Unit)
  | stepped (result : Except Fault (Option Nat)) (notices : List Notice)
  /-- How a run ended, and in which state it left its hooks. -/
  | ran {σ : Type} (ending : Console.Ending) (s : σ)
  | read (result : Except Fault Byte)
  | written (result : Except Fault Unit)

/-- The call was not refused. -/
def Reply.Spared : Reply → Prop
  | started result | written result => Famicom.Spared result
  | stepped result _ => Famicom.Spared result
  | ran ending _ => ∀ fault, ending = .failed fault → ¬ fault.IsRefusal
  | read result => Famicom.Spared result

/-- What a call yields when it is made on a console. -/
def reply : Call → Console → Reply
  | insert image pc, c => .started (c.insert image pc).result
  | reset pc, c => .started (c.reset pc).result
  | step, c => .stepped c.step.result c.step.notices
  | run hooks limit fuel s, c =>
    let (ending, _, s) := c.run hooks limit fuel s
    .ran ending s
  | read address, c => .read (c.board.readAt address).1
  | write address data, c => .written (c.board.writeAt address data).1

/-- A call that is not refused does the same on an indulgent console. -/
theorem withStrict (call : Call) (c : Console) (h : (call.reply c).Spared) :
    call.reply (c.withStrict false) = call.reply c ∧
      call.console (c.withStrict false) = (call.console c).withStrict false := by
  cases call with
  | insert image pc =>
      have hinsert := Console.insert_withStrict (c := c) h
      simp only [reply, console, hinsert, and_self]
  | reset pc =>
      have hreset := Console.reset_withStrict (c := c) h
      simp only [reply, console, hreset, and_self]
  | step =>
      have hstep := Console.step_withStrict (c := c) h
      simp only [reply, console, hstep, and_self]
  | run hooks limit fuel s =>
      have hrun := Console.runFrom_withStrict (c := c) h
      simp only [reply, console, Console.run, hrun, and_self]
  | read a =>
      have hread := Board.onlyRefuses_readAt a c.board h
      dsimp only at hread
      simp only [reply, console, Console.withStrict, hread, and_self]
  | write a d =>
      have hwrite := Board.onlyRefuses_writeAt a d c.board h
      dsimp only at hwrite
      simp only [reply, console, Console.withStrict, hwrite, and_self]

end Call

namespace Console

/-- What each of some calls yields, with the console after it. -/
def transcript : Console → List Call → List (Call.Reply × Console)
  | _, [] => []
  | c, call :: cs => (call.reply c, call.console c) :: (call.console c).transcript cs

/-- A history in which nothing is refused is the same on an indulgent console. -/
theorem transcript_withStrict {c : Console} {cs : List Call}
    (h : ∀ e ∈ c.transcript cs, e.1.Spared) :
    (c.withStrict false).transcript cs =
      (c.transcript cs).map fun e => (e.1, e.2.withStrict false) := by
  induction cs generalizing c with
  | nil => rfl
  | cons call cs ih =>
      obtain ⟨hcall, hrest⟩ := List.forall_mem_cons.mp h
      obtain ⟨hreply, hconsole⟩ := call.withStrict c hcall
      rw [transcript, transcript, hreply, hconsole, ih hrest]
      rfl

/-- To switch a console on is never refused. -/
theorem powerOn_withStrict (breakHalts : Bool) :
    (powerOn false breakHalts).console = (powerOn true breakHalts).console.withStrict false := by
  have hspared : Spared (powerOn true breakHalts).result := trivial
  exact congrArg Report.console (reset_withStrict hspared)

end Console

open Board in
/-- **Strictness only adds refusals.**  Two boards that differ in strictness remain so whatever is
done with both, and answer the same except where the strict one refuses: a read of one of the two
latches, which yields zero on the other, and a write of the status register, which has no effect on
the other.  So two consoles that differ in strictness do the same throughout every history in which
the strict one refuses nothing. -/
theorem strictness_adds_refusals :
    (∀ (b : Board) (us : List Use) (u : Use),
      let strict := us.foldl after (b.withStrict true)
      let indulgent := us.foldl after (b.withStrict false)
      indulgent = strict.withStrict false ∧ strict = indulgent.withStrict true ∧
        match u.refusal? with
        | none => strict.answer u = indulgent.answer u
        | some refusal => strict.answer u = .error refusal.fault ∧
            indulgent.answer u = .ok refusal.reply ∧ indulgent.after u = indulgent) ∧
    ∀ (breakHalts : Bool) (cs : List Call),
      let strict := (Console.powerOn true breakHalts).console
      let indulgent := (Console.powerOn false breakHalts).console
      (∀ e ∈ strict.transcript cs, e.1.Spared) →
        indulgent.transcript cs =
          (strict.transcript cs).map fun e => (e.1, e.2.withStrict false) := by
  constructor
  · intro b us u strict indulgent
    have hstrict : strict = (us.foldl after b).withStrict true := b.foldl_after_withStrict true us
    have hindulgent : indulgent = (us.foldl after b).withStrict false :=
      b.foldl_after_withStrict false us
    have hanswers := (us.foldl after b).answers_withStrict u
    rw [← hstrict, ← hindulgent] at hanswers
    refine ⟨?_, ?_, ?_⟩
    · rw [hindulgent, hstrict]
      rfl
    · rw [hindulgent, hstrict]
      rfl
    · cases hu : u.refusal? with
      | none =>
          rw [hu] at hanswers
          exact hanswers
      | some refusal =>
          rw [hu] at hanswers
          exact ⟨hanswers.1, hanswers.2, indulgent.after_of_refusal hu⟩
  · intro breakHalts cs strict indulgent hspared
    have hstart : indulgent = strict.withStrict false := Console.powerOn_withStrict breakHalts
    rw [hstart]
    exact Console.transcript_withStrict hspared

/-- There are such histories: here the console starts at address zero, where a break halts it, and
then a latch is written and the status register read. -/
theorem strictness_adds_refusals_halt :
    let cs : List Call := [.reset (some 0), .step, .write 0x2006 0x3F, .read 0x3FFA]
    let strict := (Console.powerOn true true).console
    let indulgent := (Console.powerOn false true).console
    (∀ e ∈ strict.transcript cs, e.1.Spared) ∧
      (indulgent.transcript cs).map Prod.fst = (strict.transcript cs).map Prod.fst := by
  intro cs strict indulgent
  have hspared : ∀ e ∈ strict.transcript cs, e.1.Spared := by
    simp only [cs, Console.transcript, List.forall_mem_cons]
    refine ⟨trivial, trivial, trivial, trivial, ?_⟩
    simp
  have h : indulgent.transcript cs = _ := strictness_adds_refusals.2 true cs hspared
  refine ⟨hspared, ?_⟩
  rw [h, List.map_map]
  rfl

end Famicom
