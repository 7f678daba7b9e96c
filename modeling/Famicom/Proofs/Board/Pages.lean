import Famicom.Proofs.Board.Aliases
import Famicom.Proofs.Board.Quiet
import Famicom.Proofs.Clockwork

/-! # Pages that can be read

A transfer to sprite memory reads a page of the board byte by byte.  Whether a byte is refused
depends on its address and on the strictness of the picture unit, which reading does not change, so
it can be told beforehand for each byte (`Board.readFrom_ok`, `Board.readFrom_error`).  A strict
unit refuses the pages that show its eight registers, at the first of the two latches, and no others
(`Board.pageBytes_result`).  Reading a page that does not show them changes nothing
(`Board.pageBytes_of_quiet`). -/

namespace Famicom.Board

variable {b b' : Board}

/-! ### Reads that are refused -/

theorem readFault?_of_clockwork (h : b'.clockwork = b.clockwork) (t : Target) :
    b'.readFault? t = b.readFault? t := by
  cases t with
  | register r =>
      have hstrict : b'.ppu.strict = b.ppu.strict := congrArg Prod.fst h
      show b'.ppu.readFault? r = b.ppu.readFault? r
      rw [Ppu.readFault?, Ppu.readFault?, hstrict]
  | _ => rfl

/-- Why a read at an address is refused, if so. -/
def refusal? (b : Board) (a : Int) : Option Fault := b.readFault? (decode (.ofInt 16 a))

theorem readAt_of_refusal {a : Int} {fault : Fault} (h : b.refusal? a = some fault) :
    b.readAt a = (.error fault, b) := by
  unfold readAt
  dsimp only
  rw [← refusal?, h]

theorem readAt_of_granted {a : Int} (h : b.refusal? a = none) :
    ∃ d, b.readAt a = (.ok d, (b.readAt a).2) := by
  unfold readAt
  dsimp only
  rw [← refusal?, h]
  exact ⟨_, rfl⟩

theorem refusal?_readAt (b : Board) (a a' : Int) : (b.readAt a).2.refusal? a' = b.refusal? a' :=
  readFault?_of_clockwork (b.clockwork_readAt a) _

/-- If no byte is refused, all are read. -/
theorem readFrom_ok {a : Int} {n : Nat} (h : ∀ j < n, b.refusal? (a + j) = none) :
    ∃ bytes, (b.readFrom a n).1 = .ok bytes := by
  induction n generalizing b a with
  | zero => exact ⟨[], rfl⟩
  | succ n ih =>
      have hfirst := h 0 (Nat.succ_pos n)
      rw [Int.natCast_zero, Int.add_zero] at hfirst
      obtain ⟨d, hd⟩ := readAt_of_granted hfirst
      have hrest : ∀ j < n, (b.readAt a).2.refusal? (a + 1 + j) = none := by
        intro j hj
        have hnext := h (j + 1) (Nat.succ_lt_succ hj)
        rw [refusal?_readAt, ← hnext]
        congr 1
        push_cast
        omega
      obtain ⟨bytes, hbytes⟩ := ih hrest
      refine ⟨d :: bytes, ?_⟩
      rw [readFrom, hd]
      show Except.map _ _ = _
      rw [hbytes]
      rfl

/-- Reading ends at the first byte that is refused. -/
theorem readFrom_error {a : Int} {n k : Nat} {fault : Fault} (hk : k < n)
    (hgranted : ∀ j < k, b.refusal? (a + j) = none) (hrefused : b.refusal? (a + k) = some fault) :
    (b.readFrom a n).1 = .error fault := by
  induction k generalizing b a n with
  | zero =>
      obtain ⟨n, rfl⟩ := Nat.exists_eq_succ_of_ne_zero (Nat.ne_of_gt hk)
      rw [Int.natCast_zero, Int.add_zero] at hrefused
      rw [readFrom, readAt_of_refusal hrefused]
  | succ k ih =>
      obtain ⟨n, rfl⟩ := Nat.exists_eq_succ_of_ne_zero (Nat.ne_of_gt (Nat.zero_lt_of_lt hk))
      have hfirst := hgranted 0 (Nat.succ_pos k)
      rw [Int.natCast_zero, Int.add_zero] at hfirst
      obtain ⟨d, hd⟩ := readAt_of_granted hfirst
      have hshift : ∀ j : Nat, a + 1 + (j : Int) = a + (j + 1 : Nat) := by
        intro j
        push_cast
        omega
      have hrest : ((b.readAt a).2.readFrom (a + 1) n).1 = .error fault := by
        refine ih (Nat.lt_of_succ_lt_succ hk) ?_ ?_
        · intro j hj
          rw [refusal?_readAt, hshift]
          exact hgranted (j + 1) (Nat.succ_lt_succ hj)
        · rw [refusal?_readAt, hshift]
          exact hrefused
      rw [readFrom, hd]
      show Except.map _ _ = _
      rw [hrest]
      rfl

/-- What reading preserves is preserved by reading many bytes. -/
theorem readFrom_preserves {I : Board → Prop} (hread : ∀ b t, I b → I (b.read t).2) (hb : I b)
    (a : Int) (n : Nat) : I (b.readFrom a n).2 := by
  have hreadAt : ∀ b a, I b → I (b.readAt a).2 := by
    intro b a hb
    unfold readAt
    dsimp only
    split
    · exact hb
    · exact hread _ _ hb
  induction n generalizing b a with
  | zero => exact hb
  | succ n ih =>
      have hfirst := hreadAt b a hb
      rw [readFrom]
      rcases hr : b.readAt a with ⟨fault | d, b'⟩
      · rw [hr] at hfirst
        exact hfirst
      · rw [hr] at hfirst
        exact ih hfirst (a + 1)

/-! ### Pages -/

/-- The page shows the registers of the picture unit. -/
def ShowsRegisters (page : Byte) : Prop := 0x20 ≤ page.toNat ∧ page.toNat < 0x40

instance (page : Byte) : Decidable (ShowsRegisters page) := inferInstanceAs (Decidable (_ ∧ _))

theorem toNat_inPage (page : Byte) {j : Nat} (hj : j < 256) :
    (BitVec.ofInt 16 (page.toNat * 256 + j)).toNat = page.toNat * 256 + j := by
  have := page.isLt
  rw [BitVec.toNat_ofInt]
  omega

section
variable {page : Byte} {j : Nat}

theorem refusal?_of_showsRegisters (hp : ShowsRegisters page) (hj : j < 256) :
    b.refusal? (page.toNat * 256 + j) =
      b.ppu.readFault? (.ofIndex ⟨j % 8, Nat.mod_lt _ (by decide)⟩) := by
  obtain ⟨hlow, hhigh⟩ := hp
  have hn := toNat_inPage page hj
  have hindex : (BitVec.ofInt 16 (page.toNat * 256 + j)).toNat % 8 = j % 8 := by omega
  rw [refusal?, decode_of_register (by omega)]
  simp only [hindex]
  rfl

theorem refusal?_of_not_showsRegisters (hp : ¬ ShowsRegisters page) (hj : j < 256) :
    b.refusal? (page.toNat * 256 + j) = none := by
  have hn := toNat_inPage page hj
  have ht := leadsTo_decode (BitVec.ofInt 16 (page.toNat * 256 + j))
  unfold ShowsRegisters at hp
  unfold refusal?
  generalize decode (BitVec.ofInt 16 (page.toNat * 256 + j)) = t at ht ⊢
  cases ht with
  | register h h' r hr => omega
  | oamDma h =>
      show b.ppu.readFault? .oamDma = none
      exact b.ppu.readFault?_of_readable rfl
  | _ => rfl

end

/-- **Which pages can be read.** -/
theorem pageBytes_result (b : Board) (page : Byte) :
    if b.ppu.strict = true ∧ ShowsRegisters page then
      (b.pageBytes page).1 = .error (.writeOnlyRegister 0x2005)
    else ∃ bytes, (b.pageBytes page).1 = .ok bytes := by
  unfold pageBytes
  split
  · rename_i h
    obtain ⟨hstrict, hp⟩ := h
    refine readFrom_error (k := 5) (by decide) ?_ ?_
    · intro j hj
      rw [refusal?_of_showsRegisters hp (by omega)]
      have hreadable : ∀ j : Fin 5,
          (Ppu.Register.ofIndex ⟨j.val % 8, Nat.mod_lt _ (by decide)⟩).writeOnly = false := by
        decide
      exact b.ppu.readFault?_of_readable (hreadable ⟨j, hj⟩)
    · have hrefused := refusal?_of_showsRegisters (b := b) hp (j := 5) (by decide)
      rw [hrefused, Ppu.readFault?, hstrict]
      rfl
  · rename_i h
    refine readFrom_ok ?_
    intro j hj
    by_cases hp : ShowsRegisters page
    · have hstrict : b.ppu.strict = false := by
        cases hs : b.ppu.strict with
        | false => rfl
        | true => exact absurd ⟨hs, hp⟩ h
      rw [refusal?_of_showsRegisters hp hj]
      exact b.ppu.readFault?_of_indulgent hstrict _
    · exact refusal?_of_not_showsRegisters hp hj

/-! ### Pages without registers -/

/-- The bytes that a page shows. -/
def pageShown (b : Board) (page : Byte) : List Byte :=
  (List.range 256).map fun j : Nat => b.shown (.ofInt 16 (page.toNat * 256 + j))

theorem readAt_of_quiet {a : Int} (h : Quiet (.ofInt 16 a)) :
    b.readAt a = (.ok (b.shown (.ofInt 16 a)), b) := by
  obtain ⟨hfault, hread⟩ := b.bus_read_of_quiet h
  have hfault' : b.readFault? (decode (.ofInt 16 a)) = none := hfault
  have hread' : b.read (decode (.ofInt 16 a)) = (b.shown (.ofInt 16 a), b) := hread
  rw [readAt]
  dsimp only
  rw [hfault', hread']

theorem readFrom_of_quiet {a : Int} {n : Nat} (h : ∀ j < n, Quiet (.ofInt 16 (a + j))) :
    b.readFrom a n = (.ok ((List.range n).map fun j : Nat => b.shown (.ofInt 16 (a + j))), b) := by
  induction n generalizing a with
  | zero => rfl
  | succ n ih =>
      have hshift : ∀ j : Nat, a + (j + 1 : Nat) = a + 1 + j := by
        intro j
        omega
      have hfirst := h 0 (Nat.succ_pos n)
      rw [Int.natCast_zero, Int.add_zero] at hfirst
      have hrest : ∀ j < n, Quiet (.ofInt 16 (a + 1 + j)) := by
        intro j hj
        rw [← hshift]
        exact h (j + 1) (Nat.succ_lt_succ hj)
      rw [readFrom, readAt_of_quiet hfirst, List.range_succ_eq_map, List.map_cons, List.map_map]
      dsimp only
      rw [ih hrest, Int.natCast_zero, Int.add_zero]
      refine Prod.ext (congrArg Except.ok (congrArg _ (List.map_congr_left fun j _ => ?_))) rfl
      show b.shown _ = b.shown _
      rw [hshift]

section
variable {page : Byte} (hp : ¬ ShowsRegisters page)
include hp

theorem quiet_inPage {j : Nat} (hj : j < 256) : Quiet (.ofInt 16 (page.toNat * 256 + j)) := by
  have hn := toNat_inPage page hj
  unfold ShowsRegisters at hp
  unfold Quiet
  omega

/-- Reading a page without registers changes nothing. -/
theorem pageBytes_of_quiet : b.pageBytes page = (.ok (b.pageShown page), b) :=
  readFrom_of_quiet fun _ hj => quiet_inPage hp hj

end

end Famicom.Board
