import Famicom.Proofs.Board.Cells
import Famicom.Proofs.Cpu.Dispatch
import Famicom.Proofs.Cpu.Trail

/-! # The board as a flat memory

Some addresses of the board behave like those of a plain memory (`Board.Flat`): the first copy of
work memory, and all from `0x4000` on but the register at `0x4014`.  With two banks in the cartridge
no two of them show the same cell (`Board.decode_injective`).  So a board and a memory of 65536
cells that hold the same there (`Board.Matches`) hold the same after any access to such an address.

An activity that keeps to these addresses on the memory makes the same accesses on the board and
ends alike, and board and memory still match (`Activity.run_matches`).  From this follows, order by
order, that the processor cannot tell the board from the memory (`Cpu.board_refines_memory`). -/

namespace Famicom

theorem Memory.read_full (m : FullMemory) (a : Word) : m.read a.toNat = .ok (m.busRead a) := by
  rw [m.read_of_lt a.isLt rfl, busRead, dif_pos a.isLt]

namespace Board

/-! ### Flat addresses -/

/-- The address is in the first copy of work memory, or above all copies and not that of a
register. -/
def Flat (a : Word) : Prop := a.toNat < 0x800 ∨ (0x4000 ≤ a.toNat ∧ a.toNat ≠ 0x4014)

instance (a : Word) : Decidable (Flat a) := inferInstanceAs (Decidable (_ ∨ _))

variable {a a' : Word}

theorem isCell_of_flat (h : Flat a) : (decode a).IsCell := by
  have ht := leadsTo_decode a
  simp only [Flat] at h
  generalize decode a = t at ht ⊢
  cases ht with
  | register h₁ h₂ r hr => omega
  | oamDma h₁ => omega
  | _ => trivial

theorem decode_injective (h : Flat a) (h' : Flat a') (he : decode a = decode a') : a = a' := by
  have ht := leadsTo_decode a
  have ht' := leadsTo_decode a'
  simp only [Flat] at h h'
  rw [← he] at ht'
  apply BitVec.eq_of_toNat_eq
  generalize decode a = t at ht ht'
  cases ht with
  | register h₁ h₂ r hr => omega
  | oamDma h₁ => omega
  | ram _ i hi | io _ _ _ i hi | saveRam _ _ i hi | program _ i hi =>
      cases ht'
      omega

/-- A read at a flat address is not refused. -/
theorem readAt_of_flat (b : Board) (h : Flat a) :
    (b.readAt a.toNat).1 = .ok (b.read (decode a)).1 := by
  have hw : BitVec.ofInt 16 (a.toNat : Int) = a := by simp
  rw [readAt, hw]
  dsimp only
  rw [b.readFault?_of_isCell (isCell_of_flat h)]

/-! ### Boards that match a memory -/

/-- The board has two banks and the given picture unit, and at flat addresses it holds what the
memory holds. -/
structure Matches (ppu : Ppu) (b : Board) (m : FullMemory) : Prop where
  isSplit : b.cartridge.IsSplit
  ppu_eq : b.ppu = ppu
  read_eq : ∀ a, Flat a → (b.read (decode a)).1 = m.busRead a

namespace Matches

variable {ppu : Ppu} {b : Board} {m : FullMemory}

/-- A write at a flat address changes the same cell of both. -/
theorem write (h : Matches ppu b m) (ha : Flat a) (d : Byte) :
    Matches ppu (b.write (decode a) d) (m.busWrite a d) where
  isSplit := (b.isSplit_write d _).mpr h.isSplit
  ppu_eq := (b.ppu_write_of_isCell d (isCell_of_flat ha)).trans h.ppu_eq
  read_eq := by
    intro a' ha'
    by_cases hne : a = a'
    · subst hne
      have hs : b.SameCell (decode a) (decode a) :=
        (b.sameCell_iff_of_isSplit h.isSplit).mpr rfl
      rw [b.read_write_of_sameCell d (isCell_of_flat ha) hs, Memory.busRead_busWrite_self]
    · have hs : ¬ b.SameCell (decode a) (decode a') := fun hs =>
        hne (decode_injective ha ha' ((b.sameCell_iff_of_isSplit h.isSplit).mp hs))
      rw [b.read_write_of_not_sameCell d (isCell_of_flat ha) (isCell_of_flat ha') hs,
        Memory.busRead_busWrite_ne _ _ hne]
      exact h.read_eq a' ha'

/-- What is read at a flat address, checks included. -/
theorem readAt_eq (h : Matches ppu b m) (ha : Flat a) :
    (b.readAt a.toNat).1 = m.read a.toNat := by
  rw [b.readAt_of_flat ha, m.read_full, h.read_eq a ha]

end Matches

/-- A board with two banks that reads like a memory at flat addresses matches it. -/
theorem matches_of_readAt {b : Board} {m : FullMemory} (hb : b.cartridge.IsSplit)
    (h : ∀ a : Word, Flat a → (b.readAt a.toNat).1 = m.read a.toNat) : Matches b.ppu b m where
  isSplit := hb
  ppu_eq := rfl
  read_eq := by
    intro a ha
    have hread := h a ha
    rw [b.readAt_of_flat ha, m.read_full] at hread
    exact Except.ok.inj hread

/-- There is always such a memory: a copy of what the board shows. -/
theorem exists_matches {b : Board} (hb : b.cartridge.IsSplit) :
    ∃ m : FullMemory, Matches b.ppu b m :=
  ⟨.ofFn fun i => (b.read (decode (BitVec.ofFin i))).1, hb, rfl,
    fun a _ => by rw [Memory.busRead_ofFn]⟩

end Board

open Board (Flat Matches)

/-- The address of an access. -/
def Access.address : Access → Word
  | fetch a _ | read a _ | write a _ => a

/-! ### Activities -/

namespace Activity

variable {α : Type}

/-- An outcome on the board is the one on the memory. -/
structure Mirrors (ppu : Ppu) (o : Outcome α FullMemory) (o' : Outcome α Board) : Prop where
  result_eq : o'.result = o.result
  cpu_eq : o'.cpu = o.cpu
  accesses_eq : o'.accesses = o.accesses
  agree : Matches ppu o'.bus o.bus

theorem Mirrors.after {ppu : Ppu} {o : Outcome α FullMemory} {o' : Outcome α Board}
    (h : Mirrors ppu o o') (x : Access) : Mirrors ppu (o.after x) (o'.after x) where
  result_eq := h.result_eq
  cpu_eq := h.cpu_eq
  accesses_eq := congrArg (x :: ·) h.accesses_eq
  agree := h.agree

/-- A read at a flat address, be it of an instruction byte or of another. -/
theorem bus_read_of_matches {ppu : Ppu} {b : Board} {m : FullMemory} (h : Matches ppu b m)
    {a : Word} (ha : Flat a) : Bus.readFault? b a = none ∧ Bus.read b a = (m.busRead a, b) := by
  have hcell := Board.isCell_of_flat ha
  refine ⟨b.readFault?_of_isCell hcell, ?_⟩
  rw [← h.read_eq a ha]
  exact b.read_of_isCell hcell

/-- **An activity that keeps to flat addresses** ends on the board as it does on the memory. -/
theorem run_matches (t : Activity α) {ppu : Ppu} {b : Board} {m : FullMemory}
    (h : Matches ppu b m) (hflat : ∀ x ∈ (t.run m).accesses, Flat x.address) :
    Mirrors ppu (t.run m) (t.run b) := by
  induction t generalizing b m with
  | done c a => exact ⟨rfl, rfl, rfl, h⟩
  | fail c fault => exact ⟨rfl, rfl, rfl, h⟩
  | fetch c next ih =>
      rw [run_fetch] at hflat ⊢
      obtain ⟨ha, hrest⟩ := List.forall_mem_cons.mp hflat
      obtain ⟨hf, hr⟩ := bus_read_of_matches h (a := c.pc) ha
      rw [run, hf, hr]
      exact (ih _ h hrest).after _
  | read c a next ih =>
      rw [run_read] at hflat ⊢
      obtain ⟨ha, hrest⟩ := List.forall_mem_cons.mp hflat
      obtain ⟨hf, hr⟩ := bus_read_of_matches h (a := a) ha
      rw [run, hf, hr]
      exact (ih _ h hrest).after _
  | write c a d next ih =>
      rw [run_write] at hflat ⊢
      obtain ⟨ha, hrest⟩ := List.forall_mem_cons.mp hflat
      have hf : Bus.writeFault? b a = none := b.writeFault?_of_isCell (Board.isCell_of_flat ha)
      rw [run, hf]
      exact (ih () (h.write ha d) hrest).after _

end Activity

/-! ### Runs -/

namespace Cpu

/-- A trail on the board runs along one on the memory. -/
structure Trail.Mirrors (ppu : Ppu) (t : Trail FullMemory) (t' : Trail Board) : Prop where
  cpu_eq : t'.cpu = t.cpu
  agree : Matches ppu t'.bus t.bus

namespace Trail.Mirrors

variable {ppu : Ppu} {t : Trail FullMemory} {t' : Trail Board}

/-- One order. -/
theorem answer (h : Mirrors ppu t t') (o : Order)
    (hflat : ∀ x ∈ (t.obey o).accesses, Flat x.address) :
    Activity.Mirrors ppu (t.answer o) (t'.answer o) := by
  have hrun := Activity.run_matches (o.program t.cpu) h.agree
    fun x hx => hflat x (List.mem_append_right _ hx)
  show Activity.Mirrors ppu (t.answer o) ((o.program t'.cpu).run t'.bus)
  rw [h.cpu_eq]
  exact hrun

/-- Any orders. -/
theorem foldl (h : Mirrors ppu t t') (os : List Order)
    (hflat : ∀ x ∈ (os.foldl Trail.obey t).accesses, Flat x.address) :
    Mirrors ppu (os.foldl Trail.obey t) (os.foldl Trail.obey t') := by
  induction os generalizing t t' with
  | nil => exact h
  | cons o os ih =>
      have hkept := foldl_prefix (f := Trail.obey) (fun _ _ => List.prefix_append _ _)
        (t.obey o) os
      have hfirst := h.answer o fun x hx => hflat x (hkept.subset hx)
      exact ih ⟨hfirst.cpu_eq, hfirst.agree⟩ hflat

end Trail.Mirrors

/-- **The processor cannot tell the board from a memory** as long as it keeps to flat addresses.
The board may have been used in any way, if the last image it took is longer than a bank, and at
flat addresses it reads like the memory.  Then each order ends alike on both: with the same result
and the same registers, with the picture unit as it was, and with the board reading like the memory
at flat addresses again. -/
theorem board_refines_memory (b₀ : Board) (us : List Board.Use)
    (hlong : 0x4000 < Board.lastImageSize us) (cpu : Cpu) (m : FullMemory) :
    let b := us.foldl Board.after b₀
    (∀ a : Word, Flat a → (b.readAt a.toNat).1 = m.read a.toNat) →
    ∀ (os : List Order) (o : Order),
      let t := os.foldl Trail.obey (⟨cpu, m, []⟩ : Trail FullMemory)
      let t' := os.foldl Trail.obey (⟨cpu, b, []⟩ : Trail Board)
      (∀ x ∈ (t.obey o).accesses, Flat x.address) →
      (t'.answer o).result = (t.answer o).result ∧
        (t'.answer o).cpu = (t.answer o).cpu ∧
        (t'.answer o).bus.ppu = b.ppu ∧
        ∀ a : Word, Flat a →
          ((t'.answer o).bus.readAt a.toNat).1 = (t.answer o).bus.read a.toNat := by
  intro b hagree os o t t' hflat
  have hstart : Trail.Mirrors b.ppu ⟨cpu, m, []⟩ ⟨cpu, b, []⟩ :=
    ⟨rfl, Board.matches_of_readAt (Board.isSplit_foldl b₀ hlong) hagree⟩
  have hbefore : Trail.Mirrors b.ppu t t' :=
    hstart.foldl os fun x hx => hflat x (List.mem_append_left _ hx)
  have h := hbefore.answer o hflat
  exact ⟨h.result_eq, h.cpu_eq, h.agree.ppu_eq, fun a ha => h.agree.readAt_eq ha⟩

/-- A store of the accumulator at the address after the opcode. -/
theorem sta_run (cpu : Cpu) (m : FullMemory) (hop : m.busRead cpu.pc = 0x8D) :
    let low := m.busRead (cpu.pc + 1)
    let high := m.busRead (cpu.pc + 1 + 1)
    (step.run cpu m).result = .ok (some 4) ∧
      (step.run cpu m).bus = m.busWrite (.ofBytes high low) cpu.a ∧
      (step.run cpu m).accesses =
        [.fetch cpu.pc 0x8D, .fetch (cpu.pc + 1) low, .fetch (cpu.pc + 1 + 1) high,
          .write (.ofBytes high low) cpu.a] := by
  have hc : ∀ a, cyclesOf ⟨.sta, .absolute, true⟩ (.cell a false) 0 = 4 := fun _ => rfl
  rw [step_run_known (i := ⟨.sta, .absolute, true⟩) (by rw [hop]; decide) (by simp [hop]), hop]
  simp [execute, Mode.operand, Program.fetchWord, Mnemonic.operation, Operation.perform,
    Operand.store, spend, Outcome.andThen, Outcome.after, Except.map, hc]

/-- There are such runs: here a program in the first bank writes the first byte of the second. -/
theorem board_refines_memory_sta :
    let cpu : Cpu := { a := 0x42, pc := 0x8000 }
    ∃ (image : Array Byte) (m : FullMemory),
      let b := [Board.Use.insert image].foldl Board.after {}
      0x4000 < Board.lastImageSize [.insert image] ∧
        (∀ a : Word, Flat a → (b.readAt a.toNat).1 = m.read a.toNat) ∧
        (∀ x ∈ ((⟨cpu, m, []⟩ : Trail FullMemory).obey (.call .step)).accesses, Flat x.address) ∧
        let o := (⟨cpu, b, []⟩ : Trail Board).answer (.call .step)
        o.result = .ok (some 4) ∧ (o.bus.readAt 0xC000).1 = .ok 0x42 := by
  intro cpu
  -- only the program matters, so the rest of the image is forgotten at once
  obtain ⟨image, hsize, hop, hlow, hhigh⟩ : ∃ image : Array Byte, image.size = 0x4003 ∧
      image[0]?.getD 0 = 0x8D ∧ image[1]?.getD 0 = 0x00 ∧ image[2]?.getD 0 = 0xC0 :=
    ⟨#[0x8D, 0x00, 0xC0] ++ Array.replicate 0x4000 0, by simp, by simp, by simp, by simp⟩
  have hlong : 0x4000 < Board.lastImageSize [.insert image] := by
    simp [Board.lastImageSize, Board.Use.imageSize, hsize]
  obtain ⟨m, h⟩ := Board.exists_matches (Board.isSplit_foldl {} hlong)
  have hcartridge := Board.cartridge_insert {} (show 0x4000 < image.size by omega) (by omega)
  have hprogram : ∀ (a : Word) (i : Fin 0x8000), Flat a → Board.decode a = .program i →
      i.val < 0x4000 → m.busRead a = image[i.val]?.getD 0 := by
    intro a i ha hi hlt
    rw [← h.read_eq a ha, hi]
    show Cartridge.get (Board.insert {} image).2.cartridge i = _
    rw [hcartridge, Cartridge.get_of_lt _ hlt]
    simp [Cartridge.lower, Cartridge.bankOf]
  have h0 : m.busRead 0x8000 = 0x8D :=
    (hprogram 0x8000 0 (by decide) (by decide) (by decide)).trans hop
  have h1 : m.busRead 0x8001 = 0x00 :=
    (hprogram 0x8001 1 (by decide) (by decide) (by decide)).trans hlow
  have h2 : m.busRead 0x8002 = 0xC0 :=
    (hprogram 0x8002 2 (by decide) (by decide) (by decide)).trans hhigh
  obtain ⟨hresult, hbus, haccesses⟩ := sta_run cpu m h0
  have htarget : Word.ofBytes (m.busRead (cpu.pc + 1 + 1)) (m.busRead (cpu.pc + 1)) = 0xC000 := by
    show Word.ofBytes (m.busRead 0x8002) (m.busRead 0x8001) = 0xC000
    rw [h1, h2]
    decide
  have hflat : ∀ x ∈ ((⟨cpu, m, []⟩ : Trail FullMemory).obey (.call .step)).accesses,
      Flat x.address := by
    show ∀ x ∈ (step.run cpu m).accesses, Flat x.address
    rw [haccesses, htarget]
    simp only [List.forall_mem_cons, Access.address]
    exact ⟨by decide, by decide, by decide, by decide, fun _ hx => by cases hx⟩
  have hagree : ∀ a : Word, Flat a → _ := fun a ha => h.readAt_eq ha
  obtain ⟨hresult', -, -, hread⟩ :=
    board_refines_memory {} [.insert image] hlong cpu m hagree [] (.call .step) hflat
  refine ⟨image, m, hlong, hagree, hflat, hresult'.trans hresult,
    (hread 0xC000 (by decide)).trans ?_⟩
  show (step.run cpu m).bus.read 0xC000 = _
  rw [hbus, htarget]
  exact (Memory.read_full _ 0xC000).trans (congrArg _ (Memory.busRead_busWrite_self m _ _))

end Cpu

end Famicom
