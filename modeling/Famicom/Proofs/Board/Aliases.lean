import Famicom.Proofs.Board.Quiet

/-! # Aliases

Any integer is an address of the board, and many of them name the same thing.  `Board.Alias` says
when two do, by their residues alone; it depends on the cartridge, since a short image shows twice.
It is exact (`Board.alias_iff_sameCell`): the board sends two addresses to the same cell or register
just if they are aliases.  Two conclusions are drawn in `Board.aliases_share_a_cell`.

* An address may be replaced by an alias anywhere in a history (`Board.Renamed`), and the transcript
  of the history remains the same.
* At addresses of cells, what is written is read back through all aliases and disturbs nothing
  else.

Whether an image shows twice is a matter of the last image that the board has taken
(`Board.isSplit_iff`). -/

namespace Famicom

/-! ### Offsets that show the same cell -/

namespace Cartridge

theorem sameCell_iff (c : Cartridge) (i j : Fin 0x8000) :
    c.SameCell i j ↔ i = j ∨ (¬ c.IsSplit ∧ i.val % 0x4000 = j.val % 0x4000) := by
  cases c with
  | mirrored bank =>
      constructor
      · intro h
        exact Or.inr ⟨id, h⟩
      · rintro (rfl | ⟨-, h⟩)
        · rfl
        · exact h
  | split lower upper =>
      constructor
      · intro h
        exact Or.inl h
      · rintro (h | ⟨h, -⟩)
        · exact h
        · exact absurd trivial h

theorem get_of_sameCell {c : Cartridge} {i j : Fin 0x8000} (h : c.SameCell i j) :
    c.get i = c.get j := by
  cases c with
  | mirrored bank =>
      have hoffset : bankOffset i = bankOffset j := Fin.ext h
      rw [get, get, hoffset]
  | split lower upper =>
      have hij : i = j := h
      rw [hij]

theorem set_of_sameCell {c : Cartridge} {i j : Fin 0x8000} (d : Byte) (h : c.SameCell i j) :
    c.set i d = c.set j d := by
  cases c with
  | mirrored bank =>
      have hoffset : bankOffset i = bankOffset j := Fin.ext h
      rw [set, set, hoffset]
  | split lower upper =>
      have hij : i = j := h
      rw [hij]

end Cartridge

namespace Board

/-! ### Aliases -/

/-- Two addresses are aliases while the image in the cartridge has the given size. -/
def Alias (imageSize : Nat) (a a' : Int) : Prop :=
  let m := a % 0x10000
  let m' := a' % 0x10000
  m = m' ∨
    (m < 0x2000 ∧ m' < 0x2000 ∧ m % 0x800 = m' % 0x800) ∨
    ((0x2000 ≤ m ∧ m < 0x4000) ∧ (0x2000 ≤ m' ∧ m' < 0x4000) ∧ m % 8 = m' % 8) ∨
    (imageSize ≤ 0x4000 ∧ 0x8000 ≤ m ∧ 0x8000 ≤ m' ∧ m % 0x4000 = m' % 0x4000)

instance (n : Nat) (a a' : Int) : Decidable (Alias n a a') :=
  inferInstanceAs (Decidable (_ ∨ _))

theorem Alias.symm {n : Nat} {a a' : Int} (h : Alias n a a') : Alias n a' a := by
  rcases h with h | ⟨h₁, h₂, h⟩ | ⟨h₁, h₂, h⟩ | ⟨hn, h₁, h₂, h⟩
  · exact Or.inl h.symm
  · exact Or.inr (Or.inl ⟨h₂, h₁, h.symm⟩)
  · exact Or.inr (Or.inr (Or.inl ⟨h₂, h₁, h.symm⟩))
  · exact Or.inr (Or.inr (Or.inr ⟨hn, h₂, h₁, h.symm⟩))

/-- What an integer address names. -/
def targetOf (a : Int) : Target := decode (BitVec.ofInt 16 a)

/-- The address names a cell, and no register of the picture unit. -/
def NamesCell (a : Int) : Prop :=
  let m := a % 0x10000
  ¬ (0x2000 ≤ m ∧ m < 0x4000) ∧ m ≠ 0x4014

instance : DecidablePred NamesCell := fun _ => inferInstanceAs (Decidable (_ ∧ _))

theorem toNat_ofInt_mod (a : Int) : ((BitVec.ofInt 16 a).toNat : Int) = a % 0x10000 := by
  rw [BitVec.toNat_ofInt]
  omega

theorem isCell_of_namesCell {a : Int} (h : NamesCell a) : (targetOf a).IsCell := by
  have hm := toNat_ofInt_mod a
  unfold NamesCell at h
  dsimp only at h
  apply registerAddress?_eq_none_iff.mp
  rw [registerAddress?, if_neg (by omega), if_neg (by omega)]

/-! Three parts of the board are shown more than once. -/

section decode
variable {a : Word}

theorem decode_of_ram (h : a.toNat < 0x2000) :
    decode a = .ram ⟨a.toNat % 0x800, Nat.mod_lt _ (by decide)⟩ := by
  unfold decode
  dsimp only
  rw [if_pos h]

theorem decode_of_register (h : 0x2000 ≤ a.toNat ∧ a.toNat < 0x4000) :
    decode a = .register (.ofIndex ⟨a.toNat % 8, Nat.mod_lt _ (by decide)⟩) := by
  unfold decode
  dsimp only
  rw [if_neg (by omega), if_pos h.2]

theorem decode_of_program (h : 0x8000 ≤ a.toNat) :
    decode a = .program ⟨a.toNat % 0x8000, Nat.mod_lt _ (by decide)⟩ := by
  unfold decode
  dsimp only
  rw [if_neg (by omega), if_neg (by omega), if_neg (by omega), dif_neg (by omega),
    dif_neg (by omega)]

end decode

section sameCell
variable (b : Board) {t t' : Target} {n : Nat} {a a' : Int}

theorem sameCell_refl (t : Target) : b.SameCell t t := by
  cases t with
  | program i =>
      have h : b.cartridge.SameCell i i := (b.cartridge.sameCell_iff i i).mpr (Or.inl rfl)
      exact h
  | _ => rfl

theorem sameCell_of_alias (hb : b.cartridge.IsSplit ↔ 0x4000 < n) (h : Alias n a a') :
    b.SameCell (targetOf a) (targetOf a') := by
  have hm := toNat_ofInt_mod a
  have hm' := toNat_ofInt_mod a'
  unfold targetOf
  generalize BitVec.ofInt 16 a = w at hm ⊢
  generalize BitVec.ofInt 16 a' = w' at hm' ⊢
  rcases h with h | ⟨h₁, h₂, h⟩ | ⟨h₁, h₂, h⟩ | ⟨hn, h₁, h₂, h⟩
  · have hw : w = w' := BitVec.eq_of_toNat_eq (by omega)
    rw [hw]
    exact b.sameCell_refl _
  · have hi : w.toNat % 0x800 = w'.toNat % 0x800 := by omega
    rw [decode_of_ram (by omega), decode_of_ram (a := w') (by omega)]
    simp only [hi]
    exact b.sameCell_refl _
  · have hi : w.toNat % 8 = w'.toNat % 8 := by omega
    rw [decode_of_register (by omega), decode_of_register (a := w') (by omega)]
    simp only [hi]
    exact b.sameCell_refl _
  · have hsplit : ¬ b.cartridge.IsSplit := by
      rw [hb]
      omega
    rw [decode_of_program (by omega), decode_of_program (a := w') (by omega)]
    show b.cartridge.SameCell _ _
    rw [b.cartridge.sameCell_iff]
    exact Or.inr ⟨hsplit, by dsimp only; omega⟩

theorem alias_of_sameCell (hb : b.cartridge.IsSplit ↔ 0x4000 < n)
    (h : b.SameCell (targetOf a) (targetOf a')) : Alias n a a' := by
  have ht := leadsTo_decode (BitVec.ofInt 16 a)
  have ht' := leadsTo_decode (BitVec.ofInt 16 a')
  have hm := toNat_ofInt_mod a
  have hm' := toNat_ofInt_mod a'
  unfold targetOf at h
  unfold Alias
  dsimp only
  generalize decode (BitVec.ofInt 16 a) = t at h ht
  generalize decode (BitVec.ofInt 16 a') = t' at h ht'
  cases ht with
  | program h₁ i hi =>
      cases ht' with
      | program h₂ j hj =>
          rcases (b.cartridge.sameCell_iff i j).mp h with hij | ⟨hsplit, hij⟩
          · rw [hij] at hi
            exact Or.inl (by omega)
          · rw [hb] at hsplit
            exact Or.inr (Or.inr (Or.inr ⟨by omega, by omega, by omega, by omega⟩))
      | _ => cases h
  | register h₁ h₂ r hr =>
      cases h
      cases ht' with
      | register h₃ h₄ r' hr' =>
          exact Or.inr (Or.inr (Or.inl ⟨by omega, by omega, by omega⟩))
      | oamDma h₃ =>
          have hdma : Ppu.Register.oamDma.toInt = 0x4014 := rfl
          omega
  | oamDma h₁ =>
      cases h
      cases ht' with
      | register h₃ h₄ r' hr' =>
          have hdma : Ppu.Register.oamDma.toInt = 0x4014 := rfl
          omega
      | oamDma h₃ => exact Or.inl (by omega)
  | ram h₁ i hi =>
      cases h
      cases ht' with
      | ram h₂ j hj => exact Or.inr (Or.inl ⟨by omega, by omega, by omega⟩)
  | io _ _ _ i hi | saveRam _ _ i hi =>
      cases h
      cases ht'
      exact Or.inl (by omega)

/-- **Aliases are what names the same cell or register.** -/
theorem alias_iff_sameCell (hb : b.cartridge.IsSplit ↔ 0x4000 < n) :
    Alias n a a' ↔ b.SameCell (targetOf a) (targetOf a') := by
  constructor
  · exact b.sameCell_of_alias hb
  · exact b.alias_of_sameCell hb

/-! ### Accesses through aliases -/

theorem read_of_sameCell (h : b.SameCell t t') : b.read t = b.read t' := by
  cases t with
  | program i =>
      cases t' with
      | program j =>
          have hget : b.cartridge.get i = b.cartridge.get j := Cartridge.get_of_sameCell h
          rw [read, read, hget]
      | _ => cases h
  | _ =>
      cases h
      rfl

theorem write_of_sameCell (d : Byte) (h : b.SameCell t t') : b.write t d = b.write t' d := by
  cases t with
  | program i =>
      cases t' with
      | program j =>
          have hset : b.cartridge.set i d = b.cartridge.set j d := Cartridge.set_of_sameCell d h
          rw [write, write, hset]
      | _ => cases h
  | _ =>
      cases h
      rfl

/-- Targets that show the same cell or register refuse the same accesses and take the same data. -/
theorem checks_of_sameCell (h : b.SameCell t t') :
    b.readFault? t = b.readFault? t' ∧ b.writeFault? t = b.writeFault? t' ∧ datum? t = datum? t' := by
  cases t with
  | program i =>
      cases t' with
      | program j => exact ⟨rfl, rfl, rfl⟩
      | _ => cases h
  | _ =>
      cases h
      exact ⟨rfl, rfl, rfl⟩

theorem readAt_of_alias (hb : b.cartridge.IsSplit ↔ 0x4000 < n) (h : Alias n a a') :
    b.readAt a = b.readAt a' := by
  have hs : b.SameCell (targetOf a) (targetOf a') := b.sameCell_of_alias hb h
  unfold readAt
  simp only [← targetOf.eq_def]
  rw [(b.checks_of_sameCell hs).1, b.read_of_sameCell hs]

theorem writeAt_of_alias (hb : b.cartridge.IsSplit ↔ 0x4000 < n) (h : Alias n a a') (d : Int) :
    b.writeAt a d = b.writeAt a' d := by
  have hs : b.SameCell (targetOf a) (targetOf a') := b.sameCell_of_alias hb h
  obtain ⟨-, hfault, hdatum⟩ := b.checks_of_sameCell hs
  have hwrite : ∀ d, b.write (targetOf a) d = b.write (targetOf a') d :=
    fun d => b.write_of_sameCell d hs
  unfold writeAt
  simp only [← targetOf.eq_def]
  rw [hfault, hdatum]
  simp only [hwrite]

end sameCell

/-! ### Histories -/

/-- A use in which an address has been replaced by an alias. -/
inductive Use.Renamed (n : Nat) : Use → Use → Prop where
  | insert (image : Array Byte) : Renamed n (.insert image) (.insert image)
  | read {a a' : Int} (h : Alias n a a') : Renamed n (.read a) (.read a')
  | write {a a' : Int} (h : Alias n a a') (d : Int) : Renamed n (.write a d) (.write a' d)
  | picture (use : Ppu.Use) : Renamed n (.picture use) (.picture use)

/-- A history in which addresses have been replaced by aliases, if the image in the cartridge has
the given size at first.  What an alias is may change on the way. -/
inductive Renamed : Nat → List Use → List Use → Prop where
  | nil {n : Nat} : Renamed n [] []
  | cons {n : Nat} {u u' : Use} {us us' : List Use} (h : u.Renamed n u')
      (hs : Renamed (u.imageSize n) us us') : Renamed n (u :: us) (u' :: us')

/-- As long as the number of banks is that of the image, it will be after any use. -/
theorem isSplit_after_iff {b : Board} {n : Nat} (hb : b.cartridge.IsSplit ↔ 0x4000 < n) (u : Use) :
    (b.after u).cartridge.IsSplit ↔ 0x4000 < u.imageSize n := by
  rcases b.isSplit_after u n with ⟨hsame, hafter⟩ | hafter
  · rw [hsame, hafter, hb]
  · exact hafter

/-- A board that had no cartridge has two banks just if the last image was longer than one. -/
theorem isSplit_iff {b : Board} (hb : b.cartridge = .blank) (us : List Use) :
    (us.foldl after b).cartridge.IsSplit ↔ 0x4000 < lastImageSize us := by
  have hall : ∀ (us : List Use) (n : Nat) (b : Board), (b.cartridge.IsSplit ↔ 0x4000 < n) →
      ((us.foldl after b).cartridge.IsSplit ↔ 0x4000 < us.foldl Use.imageSize n) := by
    intro us
    induction us with
    | nil =>
        intro n b h
        exact h
    | cons u us ih =>
        intro n b h
        exact ih _ _ (isSplit_after_iff h u)
  apply hall us 0 b
  rw [hb]
  exact iff_of_false id (by decide)

theorem use_of_renamed {b : Board} {n : Nat} (hb : b.cartridge.IsSplit ↔ 0x4000 < n) {u u' : Use}
    (h : u.Renamed n u') : b.answer u = b.answer u' ∧ b.after u = b.after u' := by
  cases h with
  | insert image => exact ⟨rfl, rfl⟩
  | read h =>
      have hread := b.readAt_of_alias hb h
      constructor
      · rw [answer, answer, hread]
      · rw [after, after, hread]
  | write h d =>
      have hwrite := b.writeAt_of_alias hb h d
      constructor
      · rw [answer, answer, hwrite]
      · rw [after, after, hwrite]
  | picture use => exact ⟨rfl, rfl⟩

/-- A history with other names has the same transcript. -/
theorem transcript_of_renamed {b : Board} {n : Nat} (hb : b.cartridge.IsSplit ↔ 0x4000 < n)
    {us us' : List Use} (h : Renamed n us us') : b.transcript us = b.transcript us' := by
  induction h generalizing b with
  | nil => rfl
  | cons h hs ih =>
      obtain ⟨hanswer, hafter⟩ := use_of_renamed hb h
      have hrest := ih (isSplit_after_iff hb _)
      rw [transcript, transcript, hanswer, ← hafter, hrest]

/-- At the address of a cell a read is granted and changes nothing. -/
theorem readAt_of_namesCell (b : Board) {a : Int} (h : NamesCell a) :
    b.readAt a = (.ok (b.read (targetOf a)).1, b) := by
  have hcell := isCell_of_namesCell h
  unfold readAt
  simp only [← targetOf.eq_def]
  rw [b.readFault?_of_isCell hcell, b.read_of_isCell hcell]

/-- At the address of a cell a byte is taken. -/
theorem writeAt_of_namesCell (b : Board) {a : Int} (h : NamesCell a) (d : Byte) :
    b.writeAt a d.toNat = (.ok (), b.write (targetOf a) d) := by
  have hcell := isCell_of_namesCell h
  have hdatum : datum? (targetOf a) d.toNat = some d := by
    cases ht : targetOf a with
    | register r =>
        rw [ht] at hcell
        exact hcell.elim
    | _ => exact Byte.ofInt?_toNat d
  unfold writeAt
  simp only [← targetOf.eq_def]
  rw [b.writeFault?_of_isCell hcell, hdatum]

/-- What is written to a cell shows at its aliases and nowhere else. -/
theorem readAt_write {b : Board} {n : Nat} (hb : b.cartridge.IsSplit ↔ 0x4000 < n) {a a' : Int}
    (h : NamesCell a) (h' : NamesCell a') (d : Byte) :
    (b.write (targetOf a') d).readAt a =
      (.ok (if Alias n a a' then d else (b.read (targetOf a)).1), b.write (targetOf a') d) := by
  have hcell := isCell_of_namesCell h
  have hcell' := isCell_of_namesCell h'
  have hsame : Alias n a a' ↔ b.SameCell (targetOf a') (targetOf a) := by
    rw [← b.alias_iff_sameCell hb]
    exact ⟨Alias.symm, Alias.symm⟩
  rw [readAt_of_namesCell _ h]
  by_cases ha : Alias n a a'
  · rw [if_pos ha, b.read_write_of_sameCell d hcell' (hsame.mp ha)]
  · rw [if_neg ha, b.read_write_of_not_sameCell d hcell' hcell fun hs => ha (hsame.mpr hs)]

/-- **Aliases share a cell, and nothing else does.**  A board that had no cartridge may be used in
any way.  If addresses in its history are replaced by aliases, all that is yielded and all boards on
the way are the same.  At addresses of cells, accesses are granted and leave the picture unit as it
is; a byte that is written is read back through aliases, and all other cells keep theirs. -/
theorem aliases_share_a_cell (p : Ppu) :
    (∀ us us' : List Use, Renamed 0 us us' →
      transcript { ppu := p } us = transcript { ppu := p } us') ∧
    ∀ (us : List Use) (a a' : Int) (d : Byte), NamesCell a → NamesCell a' →
      let b := us.foldl after { ppu := p }
      ∃ before b', b.readAt a = (.ok before, b) ∧
        b.writeAt a' d.toNat = (.ok (), b') ∧ b'.ppu = b.ppu ∧
        b'.readAt a = (.ok (if Alias (lastImageSize us) a a' then d else before), b') := by
  constructor
  · intro us us' h
    exact transcript_of_renamed (iff_of_false id (by decide)) h
  · intro us a a' d ha ha' b
    have hsplit : b.cartridge.IsSplit ↔ 0x4000 < lastImageSize us := isSplit_iff rfl us
    have hppu := b.ppu_write_of_isCell d (isCell_of_namesCell ha')
    exact ⟨_, _, b.readAt_of_namesCell ha, b.writeAt_of_namesCell ha' d, hppu,
      readAt_write hsplit ha ha' d⟩

/-- A history with a short image, and the same with other names: a cell of the image, a cell of the
working memory and a register are each named in two ways.  The board that it leaves shows the image
twice, and a byte written to one of the two places is read from the other. -/
theorem aliases_share_a_cell_short_image :
    let p : Ppu := { strict := true, memory := .zero }
    let us : List Use := [.insert #[0xA9, 0x01], .write 0xC001 0x55, .read 0x0805,
      .write 0x2006 0x3F]
    let us' : List Use := [.insert #[0xA9, 0x01], .write 0x8001 0x55, .read (-0xEFFB),
      .write 0x3FFE 0x3F]
    let b := us.foldl after { ppu := p }
    Renamed 0 us us' ∧ transcript { ppu := p } us = transcript { ppu := p } us' ∧
      NamesCell 0xC001 ∧ NamesCell (-0x7FFF) ∧ Alias (lastImageSize us) 0xC001 (-0x7FFF) ∧
      ∃ b', b.writeAt (-0x7FFF) 0x77 = (.ok (), b') ∧ b'.readAt 0xC001 = (.ok 0x77, b') := by
  intro p us us' b
  have hrenamed : Renamed 0 us us' :=
    .cons (.insert _) (.cons (.write (by decide) _) (.cons (.read (by decide))
      (.cons (.write (by decide) _) .nil)))
  have hread : NamesCell 0xC001 := by decide
  have hwritten : NamesCell (-0x7FFF) := by decide
  have halias : Alias (lastImageSize us) 0xC001 (-0x7FFF) := by decide
  obtain ⟨htranscript, hcells⟩ := aliases_share_a_cell p
  obtain ⟨before, b', -, hwrite, -, hshown⟩ := hcells us 0xC001 (-0x7FFF) 0x77 hread hwritten
  rw [if_pos halias] at hshown
  exact ⟨hrenamed, htranscript us us' hrenamed, hread, hwritten, halias, b', hwrite, hshown⟩

end Board

end Famicom
