import Famicom.Cpu.Activity

/-! # What holds of an activity on every bus

An activity asks a bus and goes on with the answer, so there are two ways to know how it ends.

* **Whatever is answered.**  `Activity.Holds stop post` says of the tree alone that `post` is true
  of each state and value it can be done with, and `stop` of each state in which it can be cut
  short, be it by a fault of its own or by a refused access (`Activity.Stop`).  It goes through
  composition (`Program.holds_bind`), and so a statement about an instruction is found by computing.
  `Activity.Holds.of_ok` and `Activity.Holds.of_error` carry it over to a run on a bus.
* **Whatever is asked.**  A property of the bus that reading and writing preserve is preserved by
  every activity (`Activity.run_preserves`).

The two together say that it is enough for the property to be preserved by what the activity may ask
for (`Activity.Holds.run_preserves`). -/

namespace Famicom

namespace Activity

variable {α β γ : Type}

/-- How an activity can be cut short. -/
inductive Stop where
  /-- It fails of itself. -/
  | failed (fault : Fault)
  /-- The bus does not let it read an address. -/
  | unread (address : Word)
  /-- The bus does not let it write an address. -/
  | unwritten (address : Word)

namespace Stop

/-- The bus is the cause. -/
def IsRefusal : Stop → Prop
  | failed _ => False
  | unread _ | unwritten _ => True

/-- The fault that is reported for a stop on a bus. -/
def Explains [Bus β] (bus : β) (fault : Fault) : Stop → Prop
  | failed f => f = fault
  | unread a => Bus.readFault? bus a = some fault
  | unwritten a => Bus.writeFault? bus a = some fault

end Stop

/-! ### Whatever is answered -/

/-- Whatever the bus answers, `post` holds of each state and value that the activity is done with,
and `stop` of each state in which it may be cut short. -/
def Holds (stop : Cpu → Stop → Prop) (post : Cpu → α → Prop) : Activity α → Prop
  | done cpu a => post cpu a
  | fail cpu fault => stop cpu (.failed fault)
  | fetch cpu next => stop cpu (.unread cpu.pc) ∧ ∀ b, (next b).Holds stop post
  | read cpu a next => stop cpu (.unread a) ∧ ∀ b, (next b).Holds stop post
  | write cpu a _ next => stop cpu (.unwritten a) ∧ (next ()).Holds stop post

section Holds
variable {stop stop' : Cpu → Stop → Prop} {post post' : Cpu → α → Prop}

theorem Holds.mono {t : Activity α} (h : t.Holds stop post) (hs : ∀ c s, stop c s → stop' c s)
    (hp : ∀ c a, post c a → post' c a) : t.Holds stop' post' := by
  induction t with
  | done c a => exact hp c a h
  | fail c fault => exact hs c _ h
  | fetch c next ih => exact ⟨hs c _ h.1, fun b => ih b (h.2 b)⟩
  | read c a next ih => exact ⟨hs c _ h.1, fun b => ih b (h.2 b)⟩
  | write c a d next ih => exact ⟨hs c _ h.1, ih () h.2⟩

theorem Holds.and {t : Activity α} (h : t.Holds stop post) (h' : t.Holds stop' post') :
    t.Holds (fun c s => stop c s ∧ stop' c s) (fun c a => post c a ∧ post' c a) := by
  induction t with
  | done c a => exact ⟨h, h'⟩
  | fail c fault => exact ⟨h, h'⟩
  | fetch c next ih => exact ⟨⟨h.1, h'.1⟩, fun b => ih b (h.2 b) (h'.2 b)⟩
  | read c a next ih => exact ⟨⟨h.1, h'.1⟩, fun b => ih b (h.2 b) (h'.2 b)⟩
  | write c a d next ih => exact ⟨⟨h.1, h'.1⟩, ih () h.2 h'.2⟩

theorem holds_of_forall (t : Activity α) (hs : ∀ c s, stop c s) (hp : ∀ c a, post c a) :
    t.Holds stop post := by
  induction t with
  | done c a => exact hp c a
  | fail c fault => exact hs c _
  | fetch c next ih => exact ⟨hs c _, ih⟩
  | read c a next ih => exact ⟨hs c _, ih⟩
  | write c a d next ih => exact ⟨hs c _, ih ()⟩

theorem holds_bind {t : Activity γ} {f : Cpu → γ → Activity α} :
    (t.bind f).Holds stop post ↔ t.Holds stop fun c a => (f c a).Holds stop post := by
  induction t with
  | done c a => exact Iff.rfl
  | fail c fault => exact Iff.rfl
  | fetch c next ih => exact and_congr_right fun _ => forall_congr' ih
  | read c a next ih => exact and_congr_right fun _ => forall_congr' ih
  | write c a d next ih => exact and_congr_right fun _ => ih ()

variable [Bus β]

/-- What holds of an activity holds of the end of a run that is not cut short. -/
theorem Holds.of_ok {t : Activity α} (h : t.Holds stop post) {bus : β} {a : α}
    (hr : (t.run bus).result = .ok a) : post (t.run bus).cpu a := by
  induction t generalizing bus with
  | done c a' =>
      cases hr
      exact h
  | fail c fault => cases hr
  | fetch c next ih =>
      unfold run at hr ⊢
      split at hr
      · cases hr
      · exact ih _ (h.2 _) hr
  | read c addr next ih =>
      unfold run at hr ⊢
      split at hr
      · cases hr
      · exact ih _ (h.2 _) hr
  | write c addr d next ih =>
      unfold run at hr ⊢
      split at hr
      · cases hr
      · exact ih () h.2 hr

/-- What holds of an activity holds where a run is cut short.  A refused access leaves the bus as
it is, so the refusal can be checked on the bus that is left. -/
theorem Holds.of_error {t : Activity α} (h : t.Holds stop post) {bus : β} {fault : Fault}
    (hr : (t.run bus).result = .error fault) :
    ∃ s, stop (t.run bus).cpu s ∧ s.Explains (t.run bus).bus fault := by
  induction t generalizing bus with
  | done c a => cases hr
  | fail c f =>
      cases hr
      exact ⟨_, h, rfl⟩
  | fetch c next ih =>
      unfold run at hr ⊢
      split at hr
      · rename_i f hf
        cases hr
        exact ⟨.unread c.pc, h.1, hf⟩
      · exact ih _ (h.2 _) hr
  | read c addr next ih =>
      unfold run at hr ⊢
      split at hr
      · rename_i f hf
        cases hr
        exact ⟨.unread addr, h.1, hf⟩
      · exact ih _ (h.2 _) hr
  | write c addr d next ih =>
      unfold run at hr ⊢
      split at hr
      · rename_i f hf
        cases hr
        exact ⟨.unwritten addr, h.1, hf⟩
      · exact ih () h.2 hr

end Holds

/-! ### Whatever is asked -/

/-- A property of the bus that accesses preserve is preserved by an activity. -/
theorem run_preserves [Bus β] {I : β → Prop} (hr : ∀ bus a, I bus → I (Bus.read bus a).2)
    (hw : ∀ bus a d, I bus → I (Bus.write bus a d)) (t : Activity α) {bus : β} (h : I bus) :
    I (t.run bus).bus := by
  induction t generalizing bus with
  | done c a => exact h
  | fail c fault => exact h
  | fetch c next ih =>
      unfold run
      split
      · exact h
      · exact ih _ (hr _ _ h)
  | read c a next ih =>
      unfold run
      split
      · exact h
      · exact ih _ (hr _ _ h)
  | write c a d next ih =>
      unfold run
      split
      · exact h
      · exact ih () (hw _ _ _ h)

/-! ### Whatever is answered and asked -/

/-- A property of the bus that is preserved by what an activity may ask for is preserved by the
activity. -/
theorem Holds.run_preserves [Bus β] {stop : Cpu → Stop → Prop} {post : Cpu → α → Prop} {I : β → Prop}
    (hr : ∀ cpu bus a, stop cpu (.unread a) → I bus → I (Bus.read bus a).2)
    (hw : ∀ cpu bus a d, stop cpu (.unwritten a) → I bus → I (Bus.write bus a d))
    {t : Activity α} (ht : t.Holds stop post) {bus : β} (h : I bus) : I (t.run bus).bus := by
  induction t generalizing bus with
  | done c a => exact h
  | fail c fault => exact h
  | fetch c next ih =>
      unfold run
      split
      · exact h
      · exact ih _ (ht.2 _) (hr c _ _ ht.1 h)
  | read c a next ih =>
      unfold run
      split
      · exact h
      · exact ih _ (ht.2 _) (hr c _ _ ht.1 h)
  | write c a d next ih =>
      unfold run
      split
      · exact h
      · exact ih () ht.2 (hw c _ _ _ ht.1 h)

end Activity

namespace Program

variable {α γ : Type} {stop : Cpu → Activity.Stop → Prop} {post : Cpu → α → Prop} {cpu : Cpu}

@[simp] theorem holds_pure {a : α} :
    ((pure a : Program α) cpu).Holds stop post ↔ post cpu a := Iff.rfl

@[simp] theorem holds_bind {p : Program γ} {f : γ → Program α} :
    ((p >>= f) cpu).Holds stop post ↔ (p cpu).Holds stop fun c a => (f a c).Holds stop post :=
  Activity.holds_bind

@[simp] theorem holds_map {p : Program γ} {f : γ → α} :
    ((f <$> p) cpu).Holds stop post ↔ (p cpu).Holds stop fun c a => post c (f a) := by
  rw [← bind_pure_comp]
  exact holds_bind

@[simp] theorem holds_fail {fault : Fault} :
    ((fail fault : Program α) cpu).Holds stop post ↔ stop cpu (.failed fault) := Iff.rfl

@[simp] theorem holds_get {post : Cpu → Cpu → Prop} :
    ((get : Program Cpu) cpu).Holds stop post ↔ post cpu cpu := Iff.rfl

@[simp] theorem holds_set {c : Cpu} {post : Cpu → PUnit → Prop} :
    ((set c : Program PUnit) cpu).Holds stop post ↔ post c ⟨⟩ := Iff.rfl

@[simp] theorem holds_modify {f : Cpu → Cpu} {post : Cpu → PUnit → Prop} :
    ((modify f : Program PUnit) cpu).Holds stop post ↔ post (f cpu) ⟨⟩ := Iff.rfl

@[simp] theorem holds_fetch {post : Cpu → Byte → Prop} :
    (fetch cpu).Holds stop post ↔
      stop cpu (.unread cpu.pc) ∧ ∀ b, post { cpu with pc := cpu.pc + 1 } b := Iff.rfl

@[simp] theorem holds_read {a : Word} {post : Cpu → Byte → Prop} :
    (read a cpu).Holds stop post ↔ stop cpu (.unread a) ∧ ∀ b, post cpu b := Iff.rfl

@[simp] theorem holds_write {a : Word} {d : Byte} {post : Cpu → Unit → Prop} :
    (write a d cpu).Holds stop post ↔ stop cpu (.unwritten a) ∧ post cpu () := Iff.rfl

section run
variable {β : Type} [Bus β] {bus : β} {p : Program α}

@[simp] theorem run_map (f : α → γ) :
    (f <$> p).run cpu bus = ⟨(p.run cpu bus).result.map f, (p.run cpu bus).cpu,
      (p.run cpu bus).bus, (p.run cpu bus).accesses⟩ := by
  rw [← bind_pure_comp, run_bind]
  rcases p.run cpu bus with ⟨_ | a, _, _, _⟩
  · rfl
  · simp [Outcome.andThen, Except.map]

/-- What holds of a program holds of the end of a run that is not cut short. -/
theorem of_ok (hp : (p cpu).Holds stop post) {a : α} (hr : (p.run cpu bus).result = .ok a) :
    post (p.run cpu bus).cpu a :=
  hp.of_ok hr

/-- What holds of a program holds where a run is cut short. -/
theorem of_error (hp : (p cpu).Holds stop post) {fault : Fault}
    (hr : (p.run cpu bus).result = .error fault) :
    ∃ s, stop (p.run cpu bus).cpu s ∧ s.Explains (p.run cpu bus).bus fault :=
  hp.of_error hr

end run

end Program

end Famicom
