import Famicom.Proofs.Board.Slots
import Famicom.Proofs.Console.Reset

/-! # Taking a cartridge in

An image that fits becomes all that the upper half of the address space shows (`Board.ShowsImage`),
and nothing else on the board is changed but by the reset that a console goes through with it
(`Board.SameBeside`).  An image that does not fit is refused before anything is done, so that neither
the earlier image nor the way it is shown is lost, and a console goes on as if nothing had been
asked of it.  `Console.insert_replaces` says so for all images, after any uses. -/

namespace Famicom

/-! ### What an image shows -/

namespace Cartridge

variable {image : Array Byte} {c : Cartridge} {i : Nat}

theorem get_lower_of_ofImage (h : ofImage image = .ok c) (hi : i < 0x4000) :
    c.get ⟨i, by omega⟩ = image[i]?.getD 0 := by
  have hoffset : bankOffset ⟨i, by omega⟩ = ⟨i, hi⟩ := Fin.ext (Nat.mod_eq_of_lt hi)
  by_cases hshort : image.size ≤ 0x4000
  · cases (ofImage_of_short hshort).symm.trans h
    rw [get, hoffset, bankOf, Memory.get_ofFn, Nat.zero_add]
  · by_cases hfits : image.size ≤ 0x8000
    · cases (ofImage_of_long (Nat.lt_of_not_le hshort) hfits).symm.trans h
      rw [get, if_pos hi, hoffset, bankOf, Memory.get_ofFn, Nat.zero_add]
    · cases (ofImage_of_tooLarge hfits).symm.trans h

theorem get_upper_of_ofImage (h : ofImage image = .ok c) (hi : i < 0x4000) :
    c.get ⟨0x4000 + i, by omega⟩ =
      if 0x4000 < image.size then image[0x4000 + i]?.getD 0 else image[i]?.getD 0 := by
  have hoffset : bankOffset ⟨0x4000 + i, by omega⟩ = ⟨i, hi⟩ := by
    refine Fin.ext ?_
    show (0x4000 + i) % 0x4000 = i
    omega
  by_cases hlong : 0x4000 < image.size
  · rw [if_pos hlong]
    by_cases hfits : image.size ≤ 0x8000
    · cases (ofImage_of_long hlong hfits).symm.trans h
      rw [get, if_neg (Nat.not_lt.mpr (Nat.le_add_right _ _)), hoffset, bankOf, Memory.get_ofFn]
    · cases (ofImage_of_tooLarge hfits).symm.trans h
  · rw [if_neg hlong]
    cases (ofImage_of_short (Nat.le_of_not_lt hlong)).symm.trans h
    rw [get, hoffset, bankOf, Memory.get_ofFn, Nat.zero_add]

end Cartridge

namespace Board

/-- The upper half of the address space shows an image, with zeros past its end.  An image that is
not longer than a bank shows twice. -/
structure ShowsImage (b : Board) (image : Array Byte) : Prop where
  lower : ∀ i : Nat, i < 0x4000 → b.readAt (0x8000 + i) = (.ok (image[i]?.getD 0), b)
  upper : ∀ i : Nat, i < 0x4000 → b.readAt (0xC000 + i) =
    (.ok (if 0x4000 < image.size then image[0x4000 + i]?.getD 0 else image[i]?.getD 0), b)

/-- Beside the cartridge, two boards have the same memories, those of the picture unit included. -/
structure SameBeside (b b' : Board) : Prop where
  ram_eq : b'.ram = b.ram
  io_eq : b'.io = b.io
  saveRam_eq : b'.saveRam = b.saveRam
  videoMemory_eq : b'.ppu.memory = b.ppu.memory
  oam_eq : b'.ppu.oam = b.ppu.oam

/-- The cartridge is read at the upper half of the address space. -/
theorem readAt_program (b : Board) {a : Int} (i : Fin 0x8000) (ha : a = 0x8000 + i.val) :
    b.readAt a = (.ok (b.cartridge.get i), b) := by
  have hi := i.isLt
  have hmod : ((BitVec.ofInt 16 a).toNat : Int) = a := by
    rw [toNat_ofInt_mod]
    omega
  have htarget : targetOf a = .program i := by
    rw [targetOf, decode_of_program (by omega)]
    exact congrArg Target.program (Fin.ext (by simp only; omega))
  have hnames : NamesCell a := by
    simp only [NamesCell]
    omega
  rw [b.readAt_of_namesCell hnames, htarget]
  rfl

theorem showsImage_of_cartridge {b : Board} {image : Array Byte}
    (h : Cartridge.ofImage image = .ok b.cartridge) : b.ShowsImage image where
  lower i hi := by
    rw [b.readAt_program ⟨i, by omega⟩ rfl, Cartridge.get_lower_of_ofImage h hi]
  upper i hi := by
    rw [b.readAt_program ⟨0x4000 + i, by omega⟩ (by simp only; omega),
      Cartridge.get_upper_of_ofImage h hi]

/-- An image that fits is put in, and nothing is left of the cartridge that was in before. -/
theorem exists_insert (b : Board) {image : Array Byte} (hfits : image.size ≤ 0x8000) :
    ∃ b', b.insert image = (.ok (), b') ∧ Cartridge.ofImage image = .ok b'.cartridge ∧
      b.SameBeside b' ∧ b'.ppu = b.ppu ∧
      ∀ c, ({ b with cartridge := c }.insert image).2 = b' := by
  obtain ⟨c, hc⟩ : ∃ c, Cartridge.ofImage image = .ok c := by
    by_cases hlong : 0x4000 < image.size
    · exact ⟨_, Cartridge.ofImage_of_long hlong hfits⟩
    · exact ⟨_, Cartridge.ofImage_of_short (Nat.le_of_not_lt hlong)⟩
  refine ⟨{ b with cartridge := c }, b.insert_of_ok hc, hc, ⟨rfl, rfl, rfl, rfl, rfl⟩, rfl, ?_⟩
  intro earlier
  rw [insert_of_ok _ hc]

end Board

namespace Console

variable (c : Console) {image : Array Byte} (pc : Option Word)

/-- An image that fits is taken by a console as by its board, and the console starts anew. -/
theorem insert_of_ok {b : Board} (h : c.board.insert image = (.ok (), b)) :
    c.insert image pc = { result := .ok (), console := { c with board := b }.restarted pc } := by
  rw [insert, h]
  exact reset_eq pc _

theorem insert_of_error {fault : Fault} (h : c.board.insert image = (.error fault, c.board)) :
    c.insert image pc = { result := .error fault, console := c } := by
  rw [insert, h]

/-- **An image replaces the earlier one, or nothing happens.**  Let a board have been used in any
way.  Its program memory is what two slots show that refer to banks, and which are led to new banks
by each image that fits.  Such an image is shown at once, twice if it has one bank and with zeros
past its end, whatever has been in the cartridge, and nothing beside the cartridge is changed.  An
image that is too large is refused, and all that is done later yields the same as without it.  The
same is true of a console, which starts anew with an image that fits. -/
theorem insert_replaces (image : Array Byte) :
    (∀ (p : Ppu) (us : List Board.Use),
      let b := us.foldl Board.after { ppu := p }
      let s := us.foldl Slots.after .unloaded
      (∀ i, s.get i = b.cartridge.get i) ∧
        (image.size ≤ 0x8000 → ∃ b', b.insert image = (.ok (), b') ∧ (s.load image).1 = .ok () ∧
          b'.ShowsImage image ∧ b.SameBeside b' ∧ b'.ppu = b.ppu ∧
          ∀ c, ({ b with cartridge := c }.insert image).2 = b') ∧
        (0x8000 < image.size → b.insert image = (.error (.imageTooLarge image.size), b) ∧
          s.load image = (.error (.imageTooLarge image.size), s) ∧
          ∀ vs, (b.after (.insert image)).transcript vs = b.transcript vs)) ∧
      ∀ (c : Console) (pc : Option Word),
        (image.size ≤ 0x8000 → ∃ c', c.insert image pc = { result := .ok (), console := c' } ∧
          c'.board.ShowsImage image ∧ c.board.SameBeside c'.board) ∧
        (0x8000 < image.size →
          c.insert image pc = { result := .error (.imageTooLarge image.size), console := c } ∧
          ∀ acts, Act.transcript acts (c.insert image pc).console = Act.transcript acts c) := by
  refine ⟨fun p us => ?_, fun c pc => ⟨?_, ?_⟩⟩
  · intro b s
    refine ⟨(Slots.shows_history us p).get_eq, ?_, ?_⟩
    · intro hfits
      obtain ⟨b', hinsert, hc, hbeside⟩ := b.exists_insert hfits
      obtain ⟨-, -, hload, -⟩ := s.shows_load hfits
      exact ⟨b', hinsert, hload, Board.showsImage_of_cartridge hc, hbeside⟩
    · intro hlarge
      have himage := Cartridge.ofImage_of_tooLarge (Nat.not_le.mpr hlarge)
      have hinsert := b.insert_of_error himage
      refine ⟨hinsert, s.load_of_tooLarge (Nat.not_le.mpr hlarge), fun vs => ?_⟩
      rw [Board.after, hinsert]
  · intro hfits
    obtain ⟨b', hinsert, hc, hbeside, -⟩ := c.board.exists_insert hfits
    refine ⟨_, c.insert_of_ok pc hinsert, Board.showsImage_of_cartridge hc, ?_⟩
    -- the reset keeps the memories of the picture unit
    exact ⟨hbeside.ram_eq, hbeside.io_eq, hbeside.saveRam_eq, hbeside.videoMemory_eq,
      hbeside.oam_eq⟩
  · intro hlarge
    have himage := Cartridge.ofImage_of_tooLarge (Nat.not_le.mpr hlarge)
    have hinsert := c.insert_of_error pc (c.board.insert_of_error himage)
    refine ⟨hinsert, fun acts => ?_⟩
    rw [hinsert]

/-- There are such images: here one of a single byte comes after a longer one that was written to,
and one that is too large is refused. -/
theorem insert_replaces_longer :
    let b := [Board.Use.insert (Array.replicate 0x4001 0xFF), .write 0xC005 0x34].foldl
      Board.after {}
    (∃ b', b.insert #[0x12] = (.ok (), b') ∧ b'.readAt 0xC000 = (.ok 0x12, b') ∧
      b'.readAt 0xC005 = (.ok 0, b')) ∧
      b.insert (Array.replicate 0x8001 0) = (.error (.imageTooLarge 0x8001), b) := by
  intro b
  obtain ⟨-, hfits, -⟩ := (insert_replaces #[0x12]).1 {} [.insert (Array.replicate 0x4001 0xFF),
    .write 0xC005 0x34]
  obtain ⟨-, -, hlarge⟩ := (insert_replaces (Array.replicate 0x8001 0)).1 {}
    [.insert (Array.replicate 0x4001 0xFF), .write 0xC005 0x34]
  obtain ⟨b', hinsert, -, hshows, -⟩ := hfits (by decide)
  rw [Array.size_replicate] at hlarge
  obtain ⟨hrefused, -⟩ := hlarge (by decide)
  exact ⟨⟨b', hinsert, hshows.upper 0 (by decide), hshows.upper 5 (by decide)⟩, hrefused⟩

end Console

end Famicom
