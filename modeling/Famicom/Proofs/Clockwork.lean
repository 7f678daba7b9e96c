import Famicom.Console
import Famicom.Proofs.Activity
import Famicom.Proofs.Ppu.Access

/-! # The clockwork behind the registers

Three parts of the picture unit are out of reach of its registers: whether it is strict, where the
beam stands, and whether an interrupt is requested.  Together they are its *clockwork*
(`Ppu.clockwork`).  Accesses of every kind leave the clockwork as it is: of one register, of an
address of the board, of a whole page, of a transfer to sprite memory, and of all that the processor
does (`Program.run_clockwork`).

On an indulgent board no access is refused (`Board.readFault?_of_indulgent`), and since strictness
belongs to the clockwork it stays indulgent. -/

namespace Famicom

/-! ### Registers -/

namespace Ppu

/-- What registers do not reach: strictness, the beam, and the request of an interrupt. -/
def clockwork (p : Ppu) : Bool × Beam × Bool := (p.strict, p.beam, p.nmiRequested)

variable (p : Ppu)

theorem clockwork_readData : p.readData.2.clockwork = p.clockwork := by
  rw [snd_readData]
  rfl

theorem clockwork_read (r : Register) : (p.read r).2.clockwork = p.clockwork := by
  cases r with
  | data => exact p.clockwork_readData
  | _ => rfl

theorem clockwork_write (r : Register) (d : Byte) : (p.write r d).clockwork = p.clockwork := by
  cases r <;> rfl

theorem clockwork_writeOam (data : List Byte) : (p.writeOam data).clockwork = p.clockwork := by
  obtain ⟨oam, oamAddress, h⟩ := p.exists_writeOam_eq data
  rw [h]
  rfl

theorem readFault?_of_indulgent (h : p.strict = false) (r : Register) :
    p.readFault? r = none := by
  rw [readFault?, h, Bool.false_and]
  rfl

theorem writeFault?_of_indulgent (h : p.strict = false) (r : Register) :
    p.writeFault? r = none := by
  rw [writeFault?, h, Bool.false_and]
  rfl

end Ppu

/-! ### The board -/

namespace Board

/-- The clockwork of the picture unit on the board. -/
def clockwork (b : Board) : Bool × Beam × Bool := b.ppu.clockwork

/-- The board refuses no access. -/
def Indulgent (b : Board) : Prop := b.ppu.strict = false

variable {b b' : Board}

theorem Indulgent.of_clockwork (h : b.Indulgent) (hc : b'.clockwork = b.clockwork) :
    b'.Indulgent :=
  (congrArg Prod.fst hc).trans h

theorem beam_of_clockwork (hc : b'.clockwork = b.clockwork) : b'.ppu.beam = b.ppu.beam :=
  congrArg (·.2.1) hc

theorem nmiRequested_of_clockwork (hc : b'.clockwork = b.clockwork) :
    b'.ppu.nmiRequested = b.ppu.nmiRequested :=
  congrArg (·.2.2) hc

theorem clockwork_read (b : Board) (t : Target) : (b.read t).2.clockwork = b.clockwork := by
  cases t with
  | register r => exact b.ppu.clockwork_read r
  | _ => rfl

theorem clockwork_write (b : Board) (t : Target) (d : Byte) :
    (b.write t d).clockwork = b.clockwork := by
  cases t with
  | register r => exact b.ppu.clockwork_write r d
  | _ => rfl

theorem readFault?_of_indulgent (h : b.Indulgent) (t : Target) : b.readFault? t = none := by
  cases t with
  | register r => exact b.ppu.readFault?_of_indulgent h r
  | _ => rfl

theorem writeFault?_of_indulgent (h : b.Indulgent) (t : Target) : b.writeFault? t = none := by
  cases t with
  | register r => exact b.ppu.writeFault?_of_indulgent h r
  | _ => rfl

theorem clockwork_readAt (b : Board) (a : Int) : (b.readAt a).2.clockwork = b.clockwork := by
  unfold readAt
  dsimp only
  split
  · rfl
  · exact b.clockwork_read _

theorem readAt_of_indulgent (h : b.Indulgent) (a : Int) : ∃ d, (b.readAt a).1 = .ok d := by
  unfold readAt
  dsimp only
  rw [readFault?_of_indulgent h]
  exact ⟨_, rfl⟩

theorem clockwork_writeAt (b : Board) (a d : Int) : (b.writeAt a d).2.clockwork = b.clockwork := by
  unfold writeAt
  dsimp only
  split
  · rfl
  · rfl
  · exact b.clockwork_write _ _

theorem clockwork_insert (b : Board) (image : Array Byte) :
    (b.insert image).2.clockwork = b.clockwork := by
  rw [insert]
  split <;> rfl

/-! ### Pages and transfers -/

theorem clockwork_readFrom (b : Board) (a : Int) (n : Nat) :
    (b.readFrom a n).2.clockwork = b.clockwork := by
  induction n generalizing b a with
  | zero => rfl
  | succ n ih =>
      rw [readFrom]
      have h := b.clockwork_readAt a
      split
      · rename_i hr
        rw [hr] at h
        exact h
      · rename_i d b' hr
        rw [hr] at h
        exact (ih b' (a + 1)).trans h

theorem readFrom_of_indulgent (h : b.Indulgent) (a : Int) (n : Nat) :
    ∃ bytes, (b.readFrom a n).1 = .ok bytes := by
  induction n generalizing b a with
  | zero => exact ⟨[], rfl⟩
  | succ n ih =>
      obtain ⟨d, hd⟩ := readAt_of_indulgent h a
      have hb : (b.readAt a).2.Indulgent := h.of_clockwork (b.clockwork_readAt a)
      obtain ⟨bytes, hbytes⟩ := ih hb (a + 1)
      have hr : b.readAt a = (.ok d, (b.readAt a).2) := by rw [← hd]
      rw [readFrom, hr]
      refine ⟨d :: bytes, ?_⟩
      show Except.map _ _ = _
      rw [hbytes]
      rfl

end Board

namespace Console

variable {b : Board}

/-- The board after the request of a transfer has been taken. -/
def withoutRequest (b : Board) : Board := { b with ppu := b.ppu.takeTransfer.2 }

/-- The board with bytes stored in sprite memory. -/
def storeOam (b : Board) (bytes : List Byte) : Board := { b with ppu := b.ppu.writeOam bytes }

theorem transferOam_of_none (h : b.ppu.transferRequest = none) : transferOam b = (.ok 0, b) := by
  obtain ⟨ram, ppu, io, saveRam, cartridge⟩ := b
  cases ppu
  cases h
  rfl

theorem transferOam_of_some {page : Byte} (h : b.ppu.transferRequest = some page) :
    transferOam b =
      match (withoutRequest b).pageBytes page with
      | (.error fault, b') => (.error fault, b')
      | (.ok bytes, b') => (.ok transferCycles, storeOam b' bytes) := by
  rcases hp : (withoutRequest b).pageBytes page with ⟨_ | bytes, b'⟩ <;>
    simp only [withoutRequest, Ppu.takeTransfer] at hp <;>
    simp only [transferOam, Ppu.takeTransfer, h, hp, storeOam]

theorem clockwork_transferOam (b : Board) : (transferOam b).2.clockwork = b.clockwork := by
  cases h : b.ppu.transferRequest with
  | none => rw [transferOam_of_none h]
  | some page =>
      have hp := (withoutRequest b).clockwork_readFrom (page.toNat * 256) 256
      rw [← Board.pageBytes] at hp
      rw [transferOam_of_some h]
      split
      · rename_i hr
        rw [hr] at hp
        exact hp
      · rename_i bytes b' hr
        rw [hr] at hp
        exact (b'.ppu.clockwork_writeOam bytes).trans hp

/-- On an indulgent board a transfer is made whenever it is requested. -/
theorem transferOam_of_indulgent (h : b.Indulgent) :
    (transferOam b).1 = .ok (if b.ppu.transferRequest.isSome then transferCycles else 0) := by
  cases hr : b.ppu.transferRequest with
  | none => rw [transferOam_of_none hr]; rfl
  | some page =>
      obtain ⟨bytes, hbytes⟩ :=
        Board.readFrom_of_indulgent (b := withoutRequest b) h (page.toNat * 256) 256
      rw [← Board.pageBytes] at hbytes
      rw [transferOam_of_some hr]
      split
      · rename_i hp
        rw [hp] at hbytes
        cases hbytes
      · rfl

end Console

/-! ### The processor on the board -/

namespace Program

variable {α : Type} {cpu : Cpu} {b : Board}

theorem run_clockwork (p : Program α) (cpu : Cpu) (b : Board) :
    (p.run cpu b).bus.clockwork = b.clockwork :=
  Activity.run_preserves (I := fun b' : Board => b'.clockwork = b.clockwork)
    (fun b' _ h => (b'.clockwork_read _).trans h)
    (fun b' _ d h => (b'.clockwork_write _ d).trans h) (p cpu) rfl

/-- On an indulgent board a program fails only of itself. -/
theorem failed_of_indulgent (hb : b.Indulgent) {p : Program α}
    {stop : Cpu → Activity.Stop → Prop} {post : Cpu → α → Prop} (hp : (p cpu).Holds stop post)
    {fault : Fault} (hf : (p.run cpu b).result = .error fault) :
    stop (p.run cpu b).cpu (.failed fault) := by
  obtain ⟨s, hs, he⟩ := of_error hp hf
  have hi : (p.run cpu b).bus.Indulgent := hb.of_clockwork (p.run_clockwork cpu b)
  cases s with
  | failed f =>
      cases he
      exact hs
  | unread a => cases (Board.readFault?_of_indulgent hi _).symm.trans he
  | unwritten a => cases (Board.writeFault?_of_indulgent hi _).symm.trans he

/-- On an indulgent board a program without faults of its own is done. -/
theorem done_of_indulgent (hb : b.Indulgent) {p : Program α}
    {stop : Cpu → Activity.Stop → Prop} {post : Cpu → α → Prop}
    (hp : (p cpu).Holds (fun c s => stop c s ∧ s.IsRefusal) post) :
    ∃ a, (p.run cpu b).result = .ok a ∧ post (p.run cpu b).cpu a := by
  cases hr : (p.run cpu b).result with
  | ok a => exact ⟨a, rfl, of_ok hp hr⟩
  | error fault => exact (failed_of_indulgent hb hp hr).2.elim

end Program

end Famicom
