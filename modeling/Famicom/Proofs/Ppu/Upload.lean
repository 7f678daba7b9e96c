import Famicom.Proofs.Ppu.Latches
import Famicom.Proofs.Ppu.Store

/-! # A round trip through the data register

A program reaches video memory through one register: it sets a video address, and each access to the
data register moves the address on by one or by a line.  Writes take effect at once.  Reads below the
palettes come late by one: each yields what the one before it has found, and leaves in a buffer what
it finds itself.  Reads of palette entries do not wait.

So bytes that have been written from some address on can be read again from there, if no two of their
addresses name the same cell: after the byte that was in the buffer if they lie below the palettes,
and at once if they lie in the palettes (`Ppu.upload_reads_back`).  This is put together from what
stores in equal steps leave in memory (`VideoMemory.map_read_storeAlong`) and from what each use of the
data register yields on a unit that stands at some address (`Ppu.StandsAt`). -/

namespace Famicom

namespace VideoMemory

/-! ### Addresses in equal steps -/

/-- The addresses of `n` accesses, the first at `a`, each a `stride` after the one before. -/
def along (a stride : Int) (n : Nat) : List Int :=
  (List.range n).map fun i : Nat => a + i * stride

theorem along_succ (a stride : Int) (n : Nat) :
    along a stride (n + 1) = a :: along (a + stride) stride n := by
  have hstep : ∀ i : Nat, a + ((i + 1 : Nat) : Int) * stride = a + stride + i * stride := by
    intro i
    rw [Int.natCast_add, Int.add_mul, Int.natCast_one, Int.one_mul]
    omega
  rw [along, List.range_succ_eq_map, List.map_cons, List.map_map, Int.natCast_zero, Int.zero_mul,
    Int.add_zero]
  exact congrArg (a :: ·) (List.map_congr_left fun i _ => hstep i)

/-- The memory with bytes stored in equal steps. -/
def storeAlong (m : VideoMemory) (a stride : Int) : List Byte → VideoMemory
  | [] => m
  | d :: ds => (m.store a d).storeAlong (a + stride) stride ds

theorem cell_emod (a : Int) : cell (a % 0x4000) = cell a := by
  refine canon_eq_iff.mp ?_
  rw [canon, Int.emod_emod_of_dvd _ (Int.dvd_refl _), canon]

section
variable (m : VideoMemory) {stride : Int}

theorem read_emod (a : Int) : m.read (a % 0x4000) = m.read a := by
  rw [read, cell_emod, read]

theorem store_emod (a : Int) (d : Byte) : m.store (a % 0x4000) d = m.store a d := by
  rw [store, cell_emod, store]

/-- Stores in other cells do not show. -/
theorem read_storeAlong_of_notMem {a b : Int} (ds : List Byte)
    (h : cell b ∉ (along a stride ds.length).map cell) :
    (m.storeAlong a stride ds).read b = m.read b := by
  induction ds generalizing m a with
  | nil => rfl
  | cons d ds ih =>
      rw [List.length_cons, along_succ, List.map_cons, List.mem_cons, not_or] at h
      obtain ⟨hfirst, hrest⟩ := h
      rw [storeAlong, ih _ hrest, read, store, get_set_ne _ _ (Ne.symm hfirst), read]

/-- Bytes stored in different cells can all be read again. -/
theorem map_read_storeAlong {a : Int} (ds : List Byte)
    (h : ((along a stride ds.length).map cell).Nodup) :
    (along a stride ds.length).map (m.storeAlong a stride ds).read = ds := by
  induction ds generalizing m a with
  | nil => rfl
  | cons d ds ih =>
      rw [List.length_cons, along_succ, List.map_cons, List.nodup_cons] at h
      obtain ⟨hfirst, hrest⟩ := h
      rw [List.length_cons, along_succ, List.map_cons, storeAlong, ih _ hrest,
        read_storeAlong_of_notMem _ ds hfirst, read, store, get_set_self]

end

end VideoMemory

namespace Ppu

open VideoMemory (along)

/-! ### The data register -/

/-- How far an access to the data register moves the video address. -/
def stride (p : Ppu) : Int := if stepsByLine p.control then 32 else 1

namespace Use

/-- The data register is read or written. -/
def AccessesData : Use → Prop
  | read a | write a _ => a = 0x2007
  | tick | writeOam _ | takeTransfer | reset => False

/-- The video address or its stride may be set, and not only the address moved on. -/
def Redirects : Use → Prop
  | write a _ => a = 0x2000 ∨ a = 0x2006
  | reset => True
  | tick | read _ | writeOam _ | takeTransfer => False

instance : DecidablePred AccessesData
  | read a => Int.instDecidableEq a 0x2007
  | write a _ => Int.instDecidableEq a 0x2007
  | tick | writeOam _ | takeTransfer | reset => .isFalse not_false

instance : DecidablePred Redirects
  | write a _ => inferInstanceAs (Decidable (a = 0x2000 ∨ a = 0x2006))
  | reset => .isTrue trivial
  | tick | read _ | writeOam _ | takeTransfer => .isFalse not_false

/-- Sets the video address, the high byte first. -/
def setAddress (a : Int) : List Use := [write 0x2006 (a / 256), write 0x2006 (a % 256)]

/-- Writes bytes through the data register. -/
def writeData (ds : List Byte) : List Use := ds.map fun d => write 0x2007 d.toNat

/-- Reads bytes through the data register. -/
def readData (n : Nat) : List Use := List.replicate n (read 0x2007)

/-- Brings bytes to video memory from an address on, and goes back to that address. -/
def upload (a : Int) (ds : List Byte) : List Use :=
  read 0x2002 :: setAddress a ++ writeData ds ++ setAddress a

end Use

/-- What some uses yield that are made one after the other. -/
def replies (p : Ppu) (us : List Use) : List (Except Fault Reply) := (p.history us).map Moment.reply

section
variable (p : Ppu)

theorem after_read_data : p.after (.read 0x2007) = p.readData.2 := p.snd_readAt_toInt .data

theorem after_write_data (d : Int) : p.after (.write 0x2007 d) = p.writeData (BitVec.ofInt 8 d) :=
  p.snd_writeAt_toInt .data d

theorem answer_read_data : p.answer (.read 0x2007) = .ok (.byte p.readData.1) := by
  have hread := p.fst_readAt_toInt (p.readFault?_of_readable (r := .data) rfl)
  exact congrArg (Except.map Reply.byte) hread

theorem videoAddress_advanceAddress :
    p.advanceAddress.videoAddress = (p.videoAddress + p.stride) % 0x4000 := by
  show (p.address.value + p.stride) % 0x4000 % 0x4000 =
    (p.address.value % 0x4000 + p.stride) % 0x4000
  omega

end

/-! ### The video address along a run -/

section
variable {p : Ppu}

/-- **What a use does to the video address.** -/
theorem videoAddress_after {u : Use} (h : ¬ u.Redirects) :
    (p.after u).videoAddress =
        (p.videoAddress + if u.AccessesData then p.stride else 0) % 0x4000 ∧
      (p.after u).stride = p.stride := by
  have hkeeps : ∀ q : Ppu, q.address.value = p.address.value → q.control = p.control →
      ¬ u.AccessesData → q.videoAddress =
          (p.videoAddress + if u.AccessesData then p.stride else 0) % 0x4000 ∧
        q.stride = p.stride := by
    intro q haddress hcontrol hu
    rw [if_neg hu, videoAddress, videoAddress, haddress, stride, stride, hcontrol]
    exact ⟨by omega, rfl⟩
  cases u with
  | tick =>
      obtain ⟨frame, status, beam, nmi, htick⟩ := p.exists_tick_eq
      show p.tick.2.videoAddress = _ ∧ p.tick.2.stride = _
      rw [htick]
      exact hkeeps _ rfl rfl id
  | read a =>
      show (p.readAt a).2.videoAddress = _ ∧ (p.readAt a).2.stride = _
      rcases Register.ofInt?_cases a with hnone | ⟨r, rfl⟩
      · rw [p.readAt_of_none hnone]
        refine hkeeps p rfl rfl ?_
        rintro rfl
        cases hnone
      · rw [p.snd_readAt_toInt]
        cases r with
        | data =>
            have hu : Use.AccessesData (.read Register.data.toInt) := rfl
            rw [if_pos hu, read, snd_readData]
            exact ⟨videoAddress_advanceAddress _, rfl⟩
        | _ => exact hkeeps _ rfl rfl (by decide)
  | write a d =>
      show (p.writeAt a d).2.videoAddress = _ ∧ (p.writeAt a d).2.stride = _
      rcases Register.ofInt?_cases a with hnone | ⟨r, rfl⟩
      · rw [p.writeAt_of_none hnone]
        refine hkeeps p rfl rfl ?_
        rintro rfl
        cases hnone
      · rw [p.snd_writeAt_toInt]
        cases r with
        | control => exact absurd (Or.inl rfl) h
        | address => exact absurd (Or.inr rfl) h
        | data =>
            have hu : Use.AccessesData (.write Register.data.toInt d) := rfl
            rw [if_pos hu, write, writeData_eq]
            exact ⟨videoAddress_advanceAddress _, rfl⟩
        | _ => exact hkeeps _ rfl rfl (by show ¬ (_ : Int) = _; decide)
  | writeOam data =>
      obtain ⟨oam, oamAddress, hoam⟩ := p.exists_writeOam_eq data
      show (p.writeOam data).videoAddress = _ ∧ (p.writeOam data).stride = _
      rw [hoam]
      exact hkeeps _ rfl rfl id
  | takeTransfer => exact hkeeps _ rfl rfl id
  | reset => exact absurd trivial h

/-- Each access to the data register moves the video address on by the stride. -/
theorem videoAddress_foldl {us : List Use} (h : ∀ u ∈ us, ¬ u.Redirects) :
    (us.foldl after p).videoAddress =
      (p.videoAddress + us.countP (·.AccessesData) * p.stride) % 0x4000 := by
  induction us generalizing p with
  | nil =>
      show p.address.value % 0x4000 = (p.address.value % 0x4000 + 0 * p.stride) % 0x4000
      omega
  | cons u us ih =>
      obtain ⟨haddress, hstride⟩ := videoAddress_after (p := p) (h u (by simp))
      rw [List.foldl_cons, ih fun v hv => h v (by simp [hv]), haddress, hstride, List.countP_cons]
      by_cases hu : u.AccessesData
      · rw [if_pos hu, if_pos (decide_eq_true hu), Int.natCast_add, Int.add_mul, Int.natCast_one,
          Int.one_mul]
        omega
      · rw [if_neg hu, if_neg (by rwa [decide_eq_true_iff]), Nat.add_zero]
        omega

/-! ### Standing at an address -/

/-- The data register accesses the memory `m` at address `a`, and from there on in steps of `stride`;
the next late read yields `buffer`.  The next write of an address begins with its high byte. -/
structure StandsAt (p : Ppu) (m : VideoMemory) (a stride : Int) (buffer : Byte) : Prop where
  memory_eq : p.memory = m
  videoAddress_eq : p.videoAddress = a % 0x4000
  stride_eq : p.stride = stride
  readBuffer_eq : p.readBuffer = buffer
  toggle_eq : p.address.toggle = false

theorem standsAt_videoAddress (h : p.address.toggle = false) :
    p.StandsAt p.memory p.videoAddress p.stride p.readBuffer := by
  refine ⟨rfl, ?_, rfl, rfl, h⟩
  show p.address.value % 0x4000 = p.address.value % 0x4000 % 0x4000
  omega

namespace StandsAt

variable {m : VideoMemory} {a stride : Int} {buffer : Byte}

/-- Two writes lead to any address. -/
theorem setAddress (h : p.StandsAt m a stride buffer) (b : Int) :
    ((Use.setAddress b).foldl after p).StandsAt m b stride buffer := by
  have hwrite : ∀ (q : Ppu) (d : Int),
      q.after (.write 0x2006 d) = { q with address := q.address.write (d % 256) } := by
    intro q d
    rw [← toNat_datum]
    exact q.snd_writeAt_toInt .address d
  have hhigh : 0 ≤ b / 256 % 256 ∧ b / 256 % 256 < 256 := by omega
  have hlow : 0 ≤ b % 256 % 256 ∧ b % 256 % 256 < 256 := by omega
  have hvalue := Latch.value_write_write h.toggle_eq hhigh hlow
  have hafter : (Use.setAddress b).foldl after p =
      { p with address := (p.address.write (b / 256 % 256)).write (b % 256 % 256) } := by
    show (p.after (.write 0x2006 (b / 256))).after (.write 0x2006 (b % 256)) = _
    rw [hwrite, hwrite]
  rw [hafter]
  refine ⟨h.memory_eq, ?_, h.stride_eq, h.readBuffer_eq, ?_⟩
  · rw [videoAddress, hvalue]
    omega
  · show (!!p.address.toggle) = false
    rw [h.toggle_eq]
    rfl

/-- A byte written. -/
theorem write (h : p.StandsAt m a stride buffer) (d : Byte) :
    (p.after (.write 0x2007 d.toNat)).StandsAt (m.store a d) (a + stride) stride buffer := by
  have hd : BitVec.ofInt 8 (d.toNat : Int) = d := by
    rw [BitVec.ofInt_natCast, BitVec.ofNat_toNat, BitVec.setWidth_eq]
  rw [after_write_data, hd, writeData_eq]
  refine ⟨?_, ?_, h.stride_eq, h.readBuffer_eq, h.toggle_eq⟩
  · show p.memory.store p.videoAddress d = _
    rw [h.memory_eq, h.videoAddress_eq, VideoMemory.store_emod]
  · rw [videoAddress_advanceAddress]
    show (p.videoAddress + p.stride) % 0x4000 = _
    rw [h.videoAddress_eq, h.stride_eq]
    omega

/-- Bytes written one after the other. -/
theorem writeData (h : p.StandsAt m a stride buffer) (ds : List Byte) :
    ∃ b, ((Use.writeData ds).foldl after p).StandsAt (m.storeAlong a stride ds) b stride buffer := by
  induction ds generalizing p m a with
  | nil => exact ⟨a, h⟩
  | cons d ds ih => exact ih (h.write d)

/-- A byte read.  Where it is not a palette entry it stays in the buffer. -/
theorem read (h : p.StandsAt m a stride buffer) :
    ∃ b, (p.after (.read 0x2007)).StandsAt m (a + stride) stride b ∧
      (a % 0x4000 < 0x3F00 → b = m.read a) := by
  rw [after_read_data, snd_readData]
  refine ⟨_, ⟨h.memory_eq, ?_, h.stride_eq, rfl, h.toggle_eq⟩, ?_⟩
  · rw [videoAddress_advanceAddress]
    show (p.videoAddress + p.stride) % 0x4000 = _
    rw [h.videoAddress_eq, h.stride_eq]
    omega
  · intro ha
    show p.memory.read _ = _
    rw [h.memory_eq, h.videoAddress_eq, if_neg (by omega), VideoMemory.read_emod]

/-- What a read yields. -/
theorem answer_read (h : p.StandsAt m a stride buffer) :
    p.answer (.read 0x2007) =
      .ok (.byte (if 0x3F00 ≤ a % 0x4000 then m.read a else buffer)) := by
  rw [answer_read_data, fst_readData, h.memory_eq, h.videoAddress_eq, h.readBuffer_eq,
    VideoMemory.read_emod]

/-- Reads below the palettes, each late by one. -/
theorem replies_below (h : p.StandsAt m a stride buffer) (n : Nat)
    (hn : ∀ b ∈ along a stride (n + 1), b % 0x4000 < 0x3F00) :
    p.replies (Use.readData (n + 1)) =
      (buffer :: (along a stride n).map m.read).map fun d => .ok (.byte d) := by
  -- by induction with the byte in the buffer left open, since each read yields the one before it
  induction n generalizing p a buffer with
  | zero =>
      have ha := hn a (by simp [VideoMemory.along_succ])
      show [p.answer (.read 0x2007)] = _
      rw [h.answer_read, if_neg (by omega)]
      rfl
  | succ n ih =>
      rw [VideoMemory.along_succ] at hn
      obtain ⟨b, hnext, hb⟩ := h.read
      have ha := hn a (by simp)
      have hrest := ih hnext fun c hc => hn c (by simp [hc])
      show p.answer (.read 0x2007) :: (p.after (.read 0x2007)).replies (Use.readData (n + 1)) = _
      rw [hrest, h.answer_read, if_neg (by omega), hb ha, VideoMemory.along_succ]
      rfl

/-- Reads of palette entries, none of them late. -/
theorem replies_palettes (h : p.StandsAt m a stride buffer) (n : Nat)
    (hn : ∀ b ∈ along a stride n, 0x3F00 ≤ b % 0x4000) :
    p.replies (Use.readData n) = ((along a stride n).map m.read).map fun d => .ok (.byte d) := by
  induction n generalizing p a buffer with
  | zero => rfl
  | succ n ih =>
      rw [VideoMemory.along_succ] at hn
      obtain ⟨b, hnext, -⟩ := h.read
      have ha := hn a (by simp)
      have hrest := ih hnext fun c hc => hn c (by simp [hc])
      show p.answer (.read 0x2007) :: (p.after (.read 0x2007)).replies (Use.readData n) = _
      rw [hrest, h.answer_read, if_pos ha, VideoMemory.along_succ]
      rfl

end StandsAt

end

/-! ### The round trip -/

/-- A unit to which bytes have been brought stands at the first of them. -/
theorem standsAt_upload (p : Ppu) (a : Int) (ds : List Byte) :
    ((Use.upload a ds).foldl after p).StandsAt (p.memory.storeAlong a p.stride ds) a p.stride
      p.readBuffer := by
  have hread : p.after (.read 0x2002) = p.readStatus.2 := p.snd_readAt_toInt .status
  have hstart : (p.after (.read 0x2002)).StandsAt p.memory p.videoAddress p.stride p.readBuffer := by
    rw [hread]
    exact standsAt_videoAddress (p := p.readStatus.2) rfl
  obtain ⟨b, hwritten⟩ := (hstart.setAddress a).writeData ds
  rw [Use.upload, List.foldl_append, List.foldl_append]
  exact hwritten.setAddress a

/-- **Video memory keeps what is brought to it.**  Let bytes be written through the data register from
an address on, each in a cell of its own, and the address be set once more.  If they and the next
address lie below the palettes, reads yield the byte that was in the buffer and then these bytes; if
they lie in the palettes, reads yield them at once.  And after an address has been set, each access
to the data register moves the video address on by the stride, whatever else is done in between but
to set the two. -/
theorem upload_reads_back (p : Ppu) {a : Int} (h : 0 ≤ a) (ds : List Byte) :
    let q := (Use.upload a ds).foldl after p
    let addresses := along a p.stride
    let cells := (addresses ds.length).map VideoMemory.cell
    ((∀ b ∈ addresses (ds.length + 1), b < 0x3F00) → cells.Nodup →
      q.replies (Use.readData (ds.length + 1)) =
        (p.readBuffer :: ds).map fun d => .ok (.byte d)) ∧
    ((∀ b ∈ addresses ds.length, 0x3F00 ≤ b ∧ b ≤ 0x3FFF) → cells.Nodup →
      q.replies (Use.readData ds.length) = ds.map fun d => .ok (.byte d)) ∧
    ∀ (r : Ppu) (us : List Use), r.address.toggle = false → (∀ u ∈ us, ¬ u.Redirects) →
      ((Use.setAddress a ++ us).foldl after r).videoAddress =
        (a + us.countP (·.AccessesData) * r.stride) % 0x4000 := by
  intro q addresses cells
  have hq : q.StandsAt (p.memory.storeAlong a p.stride ds) a p.stride p.readBuffer :=
    p.standsAt_upload a ds
  have hpositive : 0 ≤ p.stride := by
    unfold stride
    split <;> omega
  have hnonneg : ∀ n, ∀ b ∈ addresses n, 0 ≤ b := by
    intro n b hb
    obtain ⟨i, -, rfl⟩ := List.mem_map.mp hb
    have := Int.mul_nonneg (Int.natCast_nonneg i) hpositive
    omega
  refine ⟨?_, ?_, ?_⟩
  · intro hbelow hcells
    have hreads := hq.replies_below ds.length fun b hb => by
      have h₀ := hnonneg _ b hb
      have h₁ := hbelow b hb
      omega
    rw [hreads, p.memory.map_read_storeAlong ds hcells]
  · intro hpalettes hcells
    have hreads := hq.replies_palettes ds.length fun b hb => by
      have h₁ := hpalettes b hb
      omega
    rw [hreads, p.memory.map_read_storeAlong ds hcells]
  · intro r us htoggle hus
    have hset := (standsAt_videoAddress htoggle).setAddress a
    rw [List.foldl_append, videoAddress_foldl hus, hset.videoAddress_eq, hset.stride_eq]
    omega

/-- Three bytes that run in lines into the mirror of the nametables, two palette entries of which the
second is the backdrop, and an address that passes the top. -/
theorem upload_reads_back_across :
    let p : Ppu := { control := 4, readBuffer := 0x77 }
    let q : Ppu := {}
    let us : List Use := [.write 0x2007 6, .tick, .read 0x2007]
    (((Use.upload 0x2FE0 [1, 2, 3]).foldl after p).replies (Use.readData 4) =
        [.ok (.byte 0x77), .ok (.byte 1), .ok (.byte 2), .ok (.byte 3)]) ∧
      (((Use.upload 0x3F0F [4, 5]).foldl after q).replies (Use.readData 2) =
        [.ok (.byte 4), .ok (.byte 5)]) ∧
      ((Use.setAddress 0x3FFF ++ us).foldl after q).videoAddress = 1 := by
  intro p q us
  refine ⟨?_, ?_, ?_⟩
  · exact (upload_reads_back p (by decide) [1, 2, 3]).1 (by decide) (by decide)
  · exact (upload_reads_back q (by decide) [4, 5]).2.1 (by decide) (by decide)
  · have htop : (0 : Int) ≤ 0x3FFF := by decide
    have haddress := (upload_reads_back q htop []).2.2 q us rfl (by decide)
    exact haddress.trans (by decide)

end Ppu

end Famicom
