import Famicom.Proofs.Cpu.Refusal

/-! # Requests of transfers

A program requests a transfer to sprite memory by storing a page number at one address.  What is
requested after some accesses is the page that was stored last (`Activity.transferRequest_run`).

An instruction stores at most one.  Only its first write may go to a register, and after that it asks
for cells only; so an instruction that has requested a transfer is also completed
(`Cpu.storedPages_step`). -/

namespace Famicom

/-- The page of the transfer that an access requests, if it does. -/
def Access.storedPage? : Access → Option Byte
  | write a d => if a = 0x4014 then some d else none
  | fetch _ _ | read _ _ => none

/-- The pages of the transfers that the accesses request, in order. -/
def Outcome.storedPages {α β : Type} (o : Outcome α β) : List Byte :=
  o.accesses.filterMap Access.storedPage?

theorem Outcome.storedPages_after {α β : Type} (o : Outcome α β) (x : Access) :
    (o.after x).storedPages = x.storedPage?.toList ++ o.storedPages := by
  show (x :: o.accesses).filterMap Access.storedPage? = _
  rw [List.filterMap_cons]
  cases x.storedPage? <;> rfl

theorem Access.storedPage?_of_isPlain {x : Access} (h : x.IsPlain) : x.storedPage? = none := by
  cases x with
  | write a d =>
      have ha : a ≠ 0x4014 := by
        rintro rfl
        exact h
      rw [storedPage?, if_neg ha]
  | _ => rfl

theorem Access.mem_storedPages {xs : List Access} {page : Byte} :
    page ∈ xs.filterMap Access.storedPage? ↔ .write 0x4014 page ∈ xs := by
  rw [List.mem_filterMap]
  constructor
  · rintro ⟨x, hx, hpage⟩
    cases x with
    | write a d =>
        rw [storedPage?] at hpage
        split at hpage
        · rename_i ha
          cases hpage
          rw [← ha]
          exact hx
        · cases hpage
    | _ => cases hpage
  · exact fun h => ⟨_, h, rfl⟩

namespace Board

variable (b : Board) (a : Word) (d : Byte)

theorem transferRequest_read :
    (Bus.read b a).2.ppu.transferRequest = b.ppu.transferRequest := by
  show (b.read (decode a)).2.ppu.transferRequest = _
  cases decode a with
  | register r =>
      cases r with
      | data =>
          show b.ppu.readData.2.transferRequest = _
          rw [Ppu.snd_readData]
          rfl
      | _ => rfl
  | _ => rfl

/-- Transfers are requested at one address. -/
theorem decode_eq_oamDma_iff {a : Word} : decode a = .register .oamDma ↔ a = 0x4014 := by
  constructor
  · intro h
    have haddress := registerAddress?_of_register h
    rw [registerAddress?] at haddress
    refine BitVec.eq_of_toNat_eq ?_
    split at haddress
    · have hvalue : (0x2000 : Int) + (a.toNat - 0x2000) % 8 = 0x4014 := Option.some.inj haddress
      omega
    · split at haddress
      · assumption
      · cases haddress
  · rintro rfl
    rfl

theorem transferRequest_write :
    (Bus.write b a d).ppu.transferRequest =
      (Access.write a d).storedPage?.toList.foldl (fun _ d => some d) b.ppu.transferRequest := by
  show (b.write (decode a) d).ppu.transferRequest = _
  rw [Access.storedPage?]
  by_cases ha : a = 0x4014
  · subst ha
    rfl
  · rw [if_neg ha]
    rcases isCell_or_register a with hcell | ⟨r, hr⟩
    · rw [b.ppu_write_of_isCell d hcell]
      rfl
    · rw [hr]
      cases r with
      | oamDma => exact absurd (decode_eq_oamDma_iff.mp hr) ha
      | _ => rfl

end Board

namespace Activity

variable {α : Type} {t : Activity α}

/-- What is requested after an activity was stored last or has been requested before. -/
theorem transferRequest_run (t : Activity α) (b : Board) :
    (t.run b).bus.ppu.transferRequest =
      (t.run b).storedPages.foldl (fun _ d => some d) b.ppu.transferRequest := by
  induction t generalizing b with
  | done c a => rfl
  | fail c fault => rfl
  | fetch c next ih =>
      unfold run
      split
      · rfl
      · rw [Outcome.storedPages_after, List.foldl_append]
        show ((next _).run (Bus.read b c.pc).2).bus.ppu.transferRequest = _
        rw [ih, Board.transferRequest_read]
        rfl
  | read c a next ih =>
      unfold run
      split
      · rfl
      · rw [Outcome.storedPages_after, List.foldl_append]
        show ((next _).run (Bus.read b a).2).bus.ppu.transferRequest = _
        rw [ih, Board.transferRequest_read]
        rfl
  | write c a d next ih =>
      unfold run
      split
      · rfl
      · rw [Outcome.storedPages_after, List.foldl_append]
        show ((next ()).run (Bus.write b a d)).bus.ppu.transferRequest = _
        rw [ih, Board.transferRequest_write]

/-- Whoever asks for cells only requests nothing. -/
theorem Holds.storedPages_eq_nil {post : Cpu → α → Prop}
    (h : t.Holds (fun _ s => s.AsksCell) post) (b : Board) : (t.run b).storedPages = [] :=
  List.filterMap_eq_nil_iff.mpr fun x hx => Access.storedPage?_of_isPlain (h.isPlain x hx)

/-- If its first write comes last, an activity requests at most one transfer, and is completed if it
does. -/
theorem WritesLast.storedPages (ht : t.WritesLast) (b : Board) :
    (t.run b).storedPages = [] ∨
      ∃ page a, (t.run b).storedPages = [page] ∧ (t.run b).result = .ok a := by
  induction t generalizing b with
  | done c a => exact Or.inl rfl
  | fail c fault => exact Or.inl rfl
  | fetch c next ih =>
      unfold run
      split
      · exact Or.inl rfl
      · rw [Outcome.storedPages_after]
        exact ih _ (ht _) _
  | read c a next ih =>
      unfold run
      split
      · exact Or.inl rfl
      · rw [Outcome.storedPages_after]
        exact ih _ (ht _) _
  | write c a d next ih =>
      have hcells : (next ()).Holds (fun _ s => s.AsksCell) fun _ _ => True :=
        Holds.mono ht (fun _ _ h => h.2) fun _ _ h => h
      unfold run
      split
      · exact Or.inl rfl
      · rw [Outcome.storedPages_after, hcells.storedPages_eq_nil, List.append_nil]
        cases (Access.write a d).storedPage? with
        | none => exact Or.inl rfl
        | some page =>
            obtain ⟨v, hv⟩ := Holds.done_on_board ht (Bus.write b a d)
            exact Or.inr ⟨page, v, rfl, hv⟩

end Activity

namespace Cpu

variable (cpu : Cpu) (b : Board)

/-- An instruction that halts the processor has only been fetched. -/
theorem storedPages_of_halt (h : (step.run cpu b).result = .ok none) :
    (step.run cpu b).storedPages = [] := by
  cases hf : Bus.readFault? b cpu.pc with
  | some fault =>
      rw [step_run_of_fault hf] at h
      cases h
  | none =>
      rw [step_run_of_fetched hf] at h ⊢
      by_cases hhalt : (Bus.read b cpu.pc).1 = 0 ∧ cpu.breakHalts
      · rw [dispatch_of_halt hhalt]
        rfl
      cases hd : Instruction.decode (Bus.read b cpu.pc).1 with
      | none =>
          rw [dispatch_of_unknown hd] at h
          cases h
      | some i =>
          rw [dispatch_of_known hd hhalt, Program.run_map] at h
          change Except.map some _ = _ at h
          cases hr : ((execute i).run { cpu with pc := cpu.pc + 1 } (Bus.read b cpu.pc).2).result with
          | error fault =>
              rw [hr] at h
              cases h
          | ok n =>
              rw [hr] at h
              cases h

/-- **An instruction requests at most one transfer**, and is completed if it does. -/
theorem storedPages_step :
    (step.run cpu b).storedPages = [] ∨
      ∃ page n, (step.run cpu b).storedPages = [page] ∧ (step.run cpu b).result = .ok (some n) := by
  rcases (step_writesLast cpu).storedPages b with hnone | ⟨page, r, hpage, hr⟩
  · exact Or.inl hnone
  · cases r with
    | none => exact Or.inl (storedPages_of_halt cpu b hr)
    | some n => exact Or.inr ⟨page, n, hpage, hr⟩

/-- What an instruction has stored where transfers are requested is what is requested after it. -/
theorem requested_of_store {cpu : Cpu} {b : Board} {page : Byte}
    (h : .write 0x4014 page ∈ (step.run cpu b).accesses) :
    (step.run cpu b).storedPages = [page] ∧
      (∃ n, (step.run cpu b).result = .ok (some n)) ∧
      (step.run cpu b).bus.ppu.transferRequest = some page := by
  have hmem : page ∈ (step.run cpu b).storedPages := Access.mem_storedPages.mpr h
  have hrequest : (step.run cpu b).bus.ppu.transferRequest = _ :=
    Activity.transferRequest_run (step cpu) b
  rcases storedPages_step cpu b with hnone | ⟨page', n, hpages, hn⟩
  · rw [hnone] at hmem
    cases hmem
  · rw [hpages, List.mem_singleton] at hmem
    subst hmem
    refine ⟨hpages, ⟨n, hn⟩, hrequest.trans ?_⟩
    show (step.run cpu b).storedPages.foldl _ _ = _
    rw [hpages]
    rfl

end Cpu

end Famicom
