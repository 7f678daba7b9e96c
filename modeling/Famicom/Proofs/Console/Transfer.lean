import Famicom.Proofs.Console.Failure
import Famicom.Proofs.Cpu.Request
import Famicom.Proofs.Cpu.Stack
import Famicom.Proofs.Ppu.SpriteMemory

/-! # Transfers to sprite memory

An instruction requests a transfer by storing a page number at one address.  It does so at most once,
since a write that may have such an effect is the last thing it asks for, and it is completed then
(`Cpu.storedPages_step`).  The same step makes the transfer, takes the request and leaves none.

What comes of it can be told from the board that the instruction has left (`Console.Transferred`).
Outside the pages that show the registers of the picture unit, reading a page changes nothing
(`Board.pageBytes_of_quiet`), so sprite memory holds what the page shows, from where its address stands
on and round to the beginning, and the address stands where it stood.  Of the other memories nothing is
changed but the three cells of the stack to which an interrupt writes that is delivered in the same
step. -/

namespace Famicom

/-! ### The interrupt in the same step -/

namespace Board

/-- Apart from the picture unit the boards differ in no more than work memory at some addresses. -/
structure AgreesOff (addresses : List Word) (b b' : Board) : Prop where
  io_eq : b'.io = b.io
  saveRam_eq : b'.saveRam = b.saveRam
  cartridge_eq : b'.cartridge = b.cartridge
  ram_get_eq : ∀ i, (∀ a ∈ addresses, decode a ≠ .ram i) → b'.ram.get i = b.ram.get i

theorem AgreesOff.refl (addresses : List Word) (b : Board) : b.AgreesOff addresses b :=
  ⟨rfl, rfl, rfl, fun _ _ => rfl⟩

theorem AgreesOff.trans {addresses : List Word} {b b' b'' : Board} (h : b.AgreesOff [] b')
    (h' : b'.AgreesOff addresses b'') : b.AgreesOff addresses b'' where
  io_eq := h'.io_eq.trans h.io_eq
  saveRam_eq := h'.saveRam_eq.trans h.saveRam_eq
  cartridge_eq := h'.cartridge_eq.trans h.cartridge_eq
  ram_get_eq i hi := (h'.ram_get_eq i hi).trans (h.ram_get_eq i fun _ ha => by cases ha)

theorem AgreesOff.write {addresses : List Word} {b b' : Board} (h : b.AgreesOff addresses b')
    {a : Word} (ha : a ∈ addresses) {i : Fin 0x800} (hi : decode a = .ram i) (d : Byte) :
    b.AgreesOff addresses (b'.write (decode a) d) := by
  rw [hi]
  refine ⟨h.io_eq, h.saveRam_eq, h.cartridge_eq, fun j hj => ?_⟩
  have hne : i ≠ j := by
    rintro rfl
    exact hj a ha hi
  exact (Memory.get_set_ne _ d hne).trans (h.ram_get_eq j hj)

theorem exists_decode_stackCell {a : Word} {sp : Byte} {n : Nat} (h : a ∈ stackCells sp n) :
    ∃ i, decode a = .ram i := by
  obtain ⟨k, -, rfl⟩ := mem_stackCells.mp h
  have hlt : (Word.cellBelow sp k).toNat < 0x2000 := by
    have hoffset := (sp - BitVec.ofNat 8 k).isLt
    rw [Word.cellBelow, Word.stackCell, Word.toNat_ofBytes]
    show 1 * 256 + _ < _
    omega
  exact ⟨_, dif_pos hlt⟩

end Board

/-- An interrupt changes nothing on a board but three cells of the stack. -/
theorem Cpu.nmi_agreesOff (cpu : Cpu) (b : Board) :
    (nmi.run cpu b).bus.ppu = b.ppu ∧ b.AgreesOff (stackCells cpu.sp 3) (nmi.run cpu b).bus := by
  refine (nmi_asks cpu).run_preserves
    (I := fun b' => b'.ppu = b.ppu ∧ b.AgreesOff (stackCells cpu.sp 3) b') ?_ ?_ ⟨rfl, .refl _ b⟩
  · intro _ b' a ha h
    have hquiet : Board.Quiet a := by
      rcases ha with rfl | rfl <;> decide
    rw [(b'.bus_read_of_quiet hquiet).2]
    exact h
  · intro _ b' a d ha h
    obtain ⟨i, hi⟩ := Board.exists_decode_stackCell ha
    have hcell : (Board.decode a).IsCell := by
      rw [hi]
      trivial
    exact ⟨(b'.ppu_write_of_isCell d hcell).trans h.1, h.2.write ha hi d⟩

/-! ### The transfer -/

/-- Sprite memory with its address, and the request of a transfer. -/
def Ppu.sprites (p : Ppu) : Memory 0x100 × Byte × Option Byte :=
  (p.oam, p.oamAddress, p.transferRequest)

theorem Ppu.sprites_tickTimes (p : Ppu) (n : Nat) : (p.tickTimes n).2.sprites = p.sprites := by
  obtain ⟨frame, status, beam, nmi, h⟩ := p.exists_tickTimes_eq n
  rw [h]
  rfl

namespace Board

/-- The board after bytes have been written to the register of sprite memory. -/
def writeOam (b : Board) (data : List Byte) : Board :=
  data.foldl (fun b d => (b.writeAt 0x2004 d.toNat).2) b

theorem writeOam_eq (b : Board) (data : List Byte) :
    b.writeOam data = { b with ppu := b.ppu.writeOam data } := by
  have hwrite : ∀ (b : Board) (d : Byte),
      (b.writeAt 0x2004 d.toNat).2 = { b with ppu := b.ppu.writeOamByte d } := by
    intro b d
    have htarget : decode (.ofInt 16 0x2004) = .register .oamData := rfl
    have hfault : b.writeFault? (.register .oamData) = none := b.ppu.writeFault?_of_writable rfl
    have hd : datum? (.register .oamData) d.toNat = some d := by simp [datum?]
    rw [writeAt, htarget, hfault, hd]
    rfl
  unfold writeOam Ppu.writeOam
  induction data generalizing b with
  | nil => rfl
  | cons d ds ih =>
      rw [List.foldl_cons, hwrite, ih, List.foldl_cons]

end Board

namespace Console

/-- What a transfer of a page leaves in a step that does the given deeds.  The processor and the board
are those that the instruction of the step has left. -/
structure Transferred (cpu : Cpu) (b : Board) (page : Byte) (ds : List Deed) (b' : Board) : Prop where
  /-- Reading the page changes nothing, and sprite memory holds what is read. -/
  read_eq : ∀ i : Nat, i < 256 → b.readAt (page.toNat * 256 + i) =
    (.ok (b'.ppu.oam.get (b.ppu.oamAddress + BitVec.ofNat 8 i).toFin), b)
  oamAddress_eq : b'.ppu.oamAddress = b.ppu.oamAddress
  transferRequest_eq : b'.ppu.transferRequest = none
  /-- The same bytes could have been written to the register. -/
  byHand : b'.ppu.oam = (b.writeOam (b.pageShown page)).ppu.oam ∧
    b'.ppu.oamAddress = (b.writeOam (b.pageShown page)).ppu.oamAddress
  memories : b.AgreesOff (if Deed.interrupt ∈ ds then stackCells cpu.sp 3 else []) b'

theorem Transferred.of_sprites {cpu : Cpu} {b b' : Board} {page : Byte} {ds : List Deed}
    (hp : ¬ Board.ShowsRegisters page)
    (hsprites : b'.ppu.sprites = (b.ppu.writeOam (b.pageShown page)).takeTransfer.2.sprites)
    (hmemories : b.AgreesOff (if Deed.interrupt ∈ ds then stackCells cpu.sp 3 else []) b') :
    Transferred cpu b page ds b' := by
  have hlength : (b.pageShown page).length = 256 := by simp [Board.pageShown]
  have hoam : b'.ppu.oam = (b.ppu.writeOam (b.pageShown page)).oam := congrArg (·.1) hsprites
  have haddress : b'.ppu.oamAddress = (b.ppu.writeOam (b.pageShown page)).oamAddress :=
    congrArg (·.2.1) hsprites
  refine ⟨?_, ?_, congrArg (·.2.2) hsprites, ?_, hmemories⟩
  · intro i hi
    have hbyte := Ppu.get_writeOam (p := b.ppu) (Nat.le_of_eq hlength) (i := i) (by omega)
    rw [hoam, hbyte, Board.readAt_of_quiet (Board.quiet_inPage hp hi)]
    simp [Board.pageShown]
  · rw [haddress, Ppu.oamAddress_writeOam, hlength]
    exact BitVec.add_zero _
  · rw [Board.writeOam_eq]
    exact ⟨hoam, haddress⟩

theorem ppu_storeOam (b : Board) (data : List Byte) :
    (storeOam (withoutRequest b) data).ppu = (b.ppu.writeOam data).takeTransfer.2 :=
  b.ppu.writeOam_takeTransfer data

theorem shown_withoutRequest (b : Board) (a : Word) : (withoutRequest b).shown a = b.shown a := by
  have hread : ∀ r, (b.ppu.takeTransfer.2.read r).1 = (b.ppu.read r).1 := by
    intro r
    cases r with
    | data =>
        show b.ppu.takeTransfer.2.readData.1 = b.ppu.readData.1
        rw [Ppu.fst_readData, Ppu.fst_readData]
        rfl
    | _ => rfl
  unfold Board.shown
  cases Board.decode a with
  | register r => exact hread r
  | _ => rfl

section
variable {b : Board} {page : Byte} (hp : ¬ Board.ShowsRegisters page)
  (hr : b.ppu.transferRequest = some page)
include hp hr

/-- A page without registers is transferred whenever it is requested. -/
theorem transferOam_of_quiet :
    transferOam b = (.ok transferCycles, storeOam (withoutRequest b) (b.pageShown page)) := by
  have hshown : (withoutRequest b).pageShown page = b.pageShown page :=
    List.map_congr_left fun _ _ => shown_withoutRequest b _
  rw [transferOam_of_some hr, Board.pageBytes_of_quiet hp, hshown]

theorem transferDeeds_of_quiet : transferDeeds b = [.transfer page] := by
  rw [transferDeeds, hr, transferOam_of_quiet hp hr]

end

theorem storeOam_agreesOff (b : Board) (data : List Byte) :
    b.AgreesOff [] (storeOam (withoutRequest b) data) :=
  ⟨rfl, rfl, rfl, fun _ _ => rfl⟩

theorem draw_agreesOff (b : Board) (n : Nat) : b.AgreesOff [] (draw b n).2 :=
  ⟨rfl, rfl, rfl, fun _ _ => rfl⟩

theorem sprites_draw (b : Board) (n : Nat) : (draw b n).2.ppu.sprites = b.ppu.sprites :=
  b.ppu.sprites_tickTimes (n * dotsPerCycle)

/-- To deliver an interrupt takes its request back; the stack changes if there is one. -/
theorem deliverNmi_agreesOff (cpu : Cpu) (b : Board) :
    (deliverNmi cpu b).2.2.ppu = { b.ppu with nmiRequested := false } ∧
      b.AgreesOff (if Deed.interrupt ∈ interruptDeeds b then stackCells cpu.sp 3 else [])
        (deliverNmi cpu b).2.2 := by
  have hkept : b.AgreesOff [] (takeNmi b).2 := ⟨rfl, rfl, rfl, fun _ _ => rfl⟩
  have hdeliver : deliverNmi cpu b =
      if b.ppu.nmiRequested then
        ((Cpu.nmi.run cpu (takeNmi b).2).result, (Cpu.nmi.run cpu (takeNmi b).2).cpu,
          (Cpu.nmi.run cpu (takeNmi b).2).bus)
      else (.ok 0, cpu, (takeNmi b).2) := rfl
  rw [hdeliver, interruptDeeds]
  cases b.ppu.nmiRequested with
  | false => exact ⟨rfl, hkept⟩
  | true =>
      obtain ⟨hppu, hram⟩ := Cpu.nmi_agreesOff cpu (takeNmi b).2
      exact ⟨hppu, hkept.trans hram⟩

/-- The transfers of a step are among its first deeds. -/
theorem filter_isTransfer_append (b drawn : Board) (p : Ppu) (n : Nat) :
    (transferDeeds b ++ dotDeeds p n ++ interruptDeeds drawn).filter Deed.isTransfer =
      (transferDeeds b).filter Deed.isTransfer := by
  have hdots : (dotDeeds p n).filter Deed.isTransfer = [] := by
    rw [List.filter_eq_nil_iff]
    intro d hd
    have hdot := isDot_of_mem_dotDeeds hd
    cases d with
    | dot beam nmiEnabled => exact Bool.false_ne_true
    | _ => cases hdot
  have hinterrupt : (interruptDeeds drawn).filter Deed.isTransfer = [] := by
    unfold interruptDeeds
    split <;> rfl
  rw [List.filter_append, List.filter_append, hdots, hinterrupt, List.append_nil, List.append_nil]

theorem interrupt_mem_append {b drawn : Board} {p : Ppu} {n : Nat} :
    .interrupt ∈ transferDeeds b ++ dotDeeds p n ++ interruptDeeds drawn ↔
      .interrupt ∈ interruptDeeds drawn := by
  have htransfer : Deed.interrupt ∉ transferDeeds b := by
    unfold transferDeeds
    split <;> simp
  have hdots : Deed.interrupt ∉ dotDeeds p n := fun h => by cases isDot_of_mem_dotDeeds h
  simp [htransfer, hdots]

/-- What follows an instruction that leaves the request of a page without registers. -/
theorem settle_transferred (cpu : Cpu) {b : Board} (hf : b.ppu.beam.InFrame) {page : Byte}
    (hp : ¬ Board.ShowsRegisters page) (hr : b.ppu.transferRequest = some page) (n : Nat) :
    (settle cpu b n).1 = .ok (n + transferCycles) ∧
      (settleDeeds b n).filter Deed.isTransfer = [.transfer page] ∧
      Transferred cpu b page (settleDeeds b n) (settle cpu b n).2.board := by
  have htransfer := transferOam_of_quiet hp hr
  have hclock := clockwork_transferOam b
  rw [htransfer] at hclock
  -- what is used of the board after the transfer, and then of the one after the dots
  have hcopied := congrArg Ppu.sprites (ppu_storeOam b (b.pageShown page))
  have hkept := storeOam_agreesOff b (b.pageShown page)
  generalize storeOam (withoutRequest b) (b.pageShown page) = ready at *
  have hready : ready.ppu.beam.InFrame := inFrame_of_clockwork hf hclock
  have hdraw := (draw_of_inFrame hready (n + transferCycles)).1
  have hdrawn := sprites_draw ready (n + transferCycles)
  have hdrawnKept := draw_agreesOff ready (n + transferCycles)
  rcases hd : draw ready (n + transferCycles) with ⟨result, drawn⟩
  rw [hd] at hdraw hdrawn hdrawnKept
  cases hdraw
  obtain ⟨owed, howed⟩ := deliverNmi_done cpu drawn
  obtain ⟨hppu, hmemories⟩ := deliverNmi_agreesOff cpu drawn
  rcases hnmi : deliverNmi cpu drawn with ⟨result, cpu', board⟩
  rw [hnmi] at howed hppu hmemories
  cases howed
  obtain ⟨hset, hds⟩ := settle_of_parts cpu htransfer hd hnmi
  rw [hset, hds]
  refine ⟨rfl, ?_, .of_sprites hp ?_ ?_⟩
  · rw [filter_isTransfer_append, transferDeeds_of_quiet hp hr]
    rfl
  · show board.ppu.sprites = _
    rw [← hcopied, ← hdrawn, hppu]
    rfl
  · simp only [interrupt_mem_append]
    exact hkept.trans (hdrawnKept.trans hmemories)

/-! ### The step -/

/-- After its instruction, of `n` cycles, the step of a console transfers a page, once. -/
structure TransfersOnce (c : Console) (page : Byte) (n : Nat) : Prop where
  result : c.step.result = .ok (some (n + c.owedCycles + transferCycles))
  deeds_eq : c.deeds.filter Deed.isTransfer = [.transfer page]
  transferred : Transferred (Cpu.step.run c.cpu c.board).cpu (Cpu.step.run c.cpu c.board).bus page
    c.deeds c.step.console.board

theorem transfersOnce {c : Console} (hf : c.InFrame) {page : Byte}
    (hp : ¬ Board.ShowsRegisters page) {n : Nat}
    (hn : (Cpu.step.run c.cpu c.board).result = .ok (some n))
    (hr : (Cpu.step.run c.cpu c.board).bus.ppu.transferRequest = some page) :
    c.TransfersOnce page n := by
  have hrun : (Cpu.step.run c.cpu c.board).bus.ppu.beam.InFrame :=
    inFrame_of_clockwork hf (Cpu.step.run_clockwork c.cpu c.board)
  generalize ho : Cpu.step.run c.cpu c.board = o at hn hr hrun
  obtain ⟨result, cpu, board, accesses⟩ := o
  cases hn
  obtain ⟨hresult, hconsole, hdeeds⟩ := step_of_cycles ho
  obtain ⟨hsettle, htransfer, hleft⟩ := settle_transferred cpu hrun hp hr (n + c.owedCycles)
  refine ⟨?_, ?_, ?_⟩
  · rw [hresult, hsettle]
    rfl
  · rw [hdeeds]
    exact htransfer
  · rw [hdeeds, hconsole, ho]
    exact hleft

/-- **A transfer copies a page, once.**  Take a console that has been switched on and used in any way,
and a page that does not show the registers of the picture unit.  If its next instruction is completed
and the transfer of the page is requested then, the step is completed; it makes this transfer and no
other, and takes the cycles of the instruction, those owed for an interrupt, and those of the
transfer.  Whenever an instruction has stored the page where transfers are requested, it has stored no
other there, it is completed, and the same step makes the transfer.  And bytes that are transferred
might as well have been written to the register of sprite memory one by one, however many they are. -/
theorem transfer_copies_page {c : Console} (hc : c.Reachable) {page : Byte}
    (hp : ¬ Board.ShowsRegisters page) :
    let o := Cpu.step.run c.cpu c.board
    (∀ n, o.result = .ok (some n) → o.bus.ppu.transferRequest = some page →
        c.TransfersOnce page n) ∧
      (.write 0x4014 page ∈ o.accesses →
        o.storedPages = [page] ∧ ∃ n, o.result = .ok (some n) ∧ c.TransfersOnce page n) ∧
      ∀ (p : Ppu) (data : List Byte),
        p.writeOam data = data.foldl (fun p d => (p.writeAt 0x2004 d.toNat).2) p := by
  intro o
  refine ⟨fun _ hn hr => transfersOnce hc.inFrame hp hn hr, ?_, Ppu.writeOam_eq_foldl⟩
  intro hstore
  obtain ⟨hpages, ⟨n, hn⟩, hr⟩ := Cpu.requested_of_store hstore
  exact ⟨hpages, n, hn, transfersOnce hc.inFrame hp hn hr⟩

/-- The register that requests transfers counted up: page seven is copied, from the last two cells of
sprite memory on and round to the first. -/
theorem transfer_copies_page_inc :
    let c := (powerOn false true).console.acts
      [.call (.write 0 0xEE), .call (.write 1 0x14), .call (.write 2 0x40),
        .call (.write 0x702 0x55), .call (.reset (some 0)), .call (.write 0x2003 0xFE),
        .call (.write 0x4014 6)]
    let o := Cpu.step.run c.cpu c.board
    c.Reachable ∧ o.bus.ppu.transferRequest = some 7 ∧ .write 0x4014 7 ∈ o.accesses ∧
      o.storedPages = [7] ∧ c.step.result = .ok (some 519) ∧
      c.step.console.board.ppu.oam.get 0 = 0x55 ∧ c.step.console.board.ppu.oamAddress = 0xFE := by
  intro c o
  have hc : c.Reachable := ⟨false, true, _, rfl⟩
  have hp : ¬ Board.ShowsRegisters 7 := by decide
  have hrun : o.result = .ok (some 6) ∧ o.bus.ppu.transferRequest = some 7 ∧
      .write 0x4014 7 ∈ o.accesses ∧ o.bus.ppu.oamAddress = 0xFE ∧
      (o.bus.readAt 0x702).1 = .ok 0x55 ∧ c.owedCycles = 0 := by decide +kernel
  obtain ⟨hn, hr, hstore, haddress, hread, howed⟩ := hrun
  obtain ⟨hrequested, hstored, -⟩ := transfer_copies_page hc hp
  obtain ⟨hpages, -⟩ := hstored hstore
  obtain ⟨hresult, -, hleft⟩ := hrequested 6 hn hr
  refine ⟨hc, hr, hstore, hpages, ?_, ?_, hleft.oamAddress_eq.trans haddress⟩
  · rw [hresult, howed]
    rfl
  · have hbyte := congrArg Prod.fst (hleft.read_eq 2 (by decide))
    rw [haddress] at hbyte
    exact (Except.ok.inj (hread.symm.trans hbyte)).symm

end Console

end Famicom
