import Sintra.Lib.Updates
import Sintra.Ring.ReaderSlots

/-!
# The invariant of the reader slots

Between the stores of an operation the slots are always such that whoever finds the lock's holder
dead can go on from there: a slot is INACTIVE exactly when it has no tenant, a slot with a tenant
records the process of the tenant, and the entries of the stack are distinct slots without a tenant.

There are two windows in which this fails until the next store: a destructor that has begun to clear
the owner of a slot that is not yet INACTIVE, and a push that has stored the count before the entry.
`SafeDeath` says that no process dies in them.
-/

namespace Sintra.Ring.Slots

open Function

variable {n : ℕ}

/-! ### Control points -/

namespace Pc

/-- The slot the reader owns. -/
def slot : Pc n → Option (Fin n)
  | .owns i | .admitted i | .retire i | .retireLocked i | .clearing i _ => some i
  | _ => none

/-- The agent is between lock and unlock. -/
def inside : Pc n → Bool
  | .idle | .owns _ | .admission _ | .retire _ | .scavenge _ => false
  | _ => true

/-- The count is stored, the entry is not. -/
def reserving : Pc n → Bool
  | .pushing _ countFirst _ => countFirst
  | _ => false

/-- Words of the owner of a slot that is not INACTIVE are cleared. -/
def unowning : Pc n → Bool
  | .clearing _ k => 1 ≤ k
  | _ => false

def inWindow (c : Pc n) : Bool := c.reserving || c.unowning

theorem not_inside {c : Pc n} (h : c.inside = false) : c.inWindow = false := by
  cases c <;> first | rfl | cases h

end Pc

/-- A process does not die while it holds the lock in one of the two windows. -/
def SafeDeath (s : State n) : Action n → Prop
  | .exit p => (s.holder.any fun a => a.process = p && (s.pc a).inWindow) = false
  | _ => True

namespace State

def Live (s : State n) (a : Agent) : Prop := a.process ∉ s.exited

/-- How many entries of the stack are in place. -/
def settled (s : State n) : ℕ :=
  if s.holder.any fun a => (s.pc a).reserving then s.stack.count - 1 else s.stack.count

/-- The slot is among the entries of the stack. -/
def Free (s : State n) (i : Fin n) : Prop := ∃ j < s.settled, s.stack.arr j = some i

theorem settled_of_holder {s : State n} {a : Agent} (h : s.holder = some a) :
    s.settled = if (s.pc a).reserving then s.stack.count - 1 else s.stack.count := by
  simp [settled, h]

theorem pc_goto_self (s : State n) (a : Agent) (c : Pc n) : (s.goto a c).pc a = c :=
  update_self _ _ _

theorem settled_goto {s : State n} {a : Agent} {c : Pc n} (h : s.holder = some a) :
    (s.goto a c).settled = if c.reserving then s.stack.count - 1 else s.stack.count := by
  rw [settled_of_holder (s := s.goto a c) h, pc_goto_self]
  rfl

theorem lockFree_iff {s : State n} : s.lockFree = true ↔ ∀ a, s.holder = some a → ¬s.Live a := by
  simp [lockFree, Live, Option.all_eq_true]

end State

/-! ### The invariant -/

/-- What a call of `scavenge_orphans` knows at slot `k`. -/
structure ScanOk (s : State n) (c : Scan n) (k : ℕ) : Prop where
  orphan : ∀ i ∈ c.orphans, ∀ b, s.tenant i = some b → ¬s.Live b
  freed : c.clean = true → ∀ i ∈ c.orphans, (i : ℕ) < k → s.Free i

def ReturnOk (s : State n) (i : Fin n) : Return n → Prop
  | .scan c k => k = i + 1 ∧ ScanOk s c i
  | _ => True

/-- What the holder of the lock knows at its control point. -/
def LocalOk (s : State n) (a : Agent) : Pc n → Prop
  | .popped i | .reserved i => s.tenant i = none ∧ ¬s.Free i
  | .publish i o k =>
    s.tenant i = none ∧ ¬s.Free i ∧
      (o.pid = a.process.pid ∧ o.startStamp = a.process.startStamp) ∧ k ≤ Owner.words ∧
      (1 ≤ k → (s.slots i).owner.pid = o.pid) ∧
      (2 ≤ k → (s.slots i).owner.startStamp = o.startStamp)
  | .clearing _ k => k ≤ Owner.words
  | .push i r => s.tenant i = none ∧ ReturnOk s i r
  | .pushing i true r => s.tenant i = none ∧ ¬s.Free i ∧ 1 ≤ s.stack.count ∧ ReturnOk s i r
  | .pushing i false r =>
    s.tenant i = none ∧ ¬s.Free i ∧ s.stack.arr s.stack.count = some i ∧ ReturnOk s i r
  | .scan c k => ScanOk s c k
  | .freeing c i k => s.tenant i = none ∧ k ≤ Owner.words ∧ ScanOk s c i
  | _ => True

section

variable {s s' : State n}

/-- What the call knows does not depend on more than the tenants, the deaths and the entries. -/
theorem ScanOk.congr {c : Scan n} {k : ℕ} (h : ScanOk s c k) (hfree : ∀ i, s.Free i → s'.Free i)
    (htenant : ∀ i ∈ c.orphans, ∀ b, s'.tenant i = some b → s.tenant i = some b)
    (hexited : s.exited ⊆ s'.exited) : ScanOk s' c k where
  orphan := by
    intro i hi b hb hlive
    exact h.orphan i hi b (htenant i hi b hb) fun hmem => hlive (hexited hmem)
  freed := by
    intro hclean i hi hk
    exact hfree i (h.freed hclean i hi hk)

theorem ReturnOk.congr {i : Fin n} {r : Return n} (h : ReturnOk s i r)
    (hfree : ∀ j, s.Free j → s'.Free j)
    (htenant : ∀ j b, s'.tenant j = some b → s.tenant j = some b) (hexited : s.exited ⊆ s'.exited) :
    ReturnOk s' i r := by
  cases r with
  | failed | retired => trivial
  | scan c k => exact ⟨h.1, h.2.congr hfree (fun j _ => htenant j) hexited⟩

/-- What the holder knows survives a step that leaves slots, entries and tenants alone. -/
theorem LocalOk.congr {a : Agent} {c : Pc n} (h : LocalOk s a c) (hfree : ∀ i, s'.Free i ↔ s.Free i)
    (htenant : s'.tenant = s.tenant) (howner : ∀ i, (s'.slots i).owner = (s.slots i).owner)
    (hstack : s'.stack = s.stack) (hexited : s.exited ⊆ s'.exited) : LocalOk s' a c := by
  have hscan : ∀ (d : Scan n) k, ScanOk s d k → ScanOk s' d k := by
    intro d k hd
    exact hd.congr (fun i => (hfree i).2) (fun i _ b hb => htenant ▸ hb) hexited
  have hreturn : ∀ i r, ReturnOk s i r → ReturnOk s' i r := by
    intro i r hr
    exact hr.congr (fun j => (hfree j).2) (fun j b hb => htenant ▸ hb) hexited
  cases c with
  | popped i | reserved i => simpa only [LocalOk, htenant, hfree] using h
  | publish i o k => simpa only [LocalOk, htenant, hfree, howner] using h
  | push i r =>
    obtain ⟨ht, hr⟩ := h
    exact ⟨htenant ▸ ht, hreturn i r hr⟩
  | pushing i countFirst r =>
    cases countFirst with
    | true =>
      obtain ⟨ht, hf, hcount, hr⟩ := h
      exact ⟨htenant ▸ ht, fun hi => hf ((hfree i).1 hi), hstack ▸ hcount, hreturn i r hr⟩
    | false =>
      obtain ⟨ht, hf, harr, hr⟩ := h
      exact ⟨htenant ▸ ht, fun hi => hf ((hfree i).1 hi), hstack ▸ harr, hreturn i r hr⟩
  | scan d k => exact hscan d k h
  | freeing d i k =>
    obtain ⟨ht, hk, hd⟩ := h
    exact ⟨htenant ▸ ht, hk, hscan d i hd⟩
  | clearing i k => exact h
  | _ => trivial

end

structure Inv (s : State n) : Prop where
  inside : ∀ a, s.Live a → (s.pc a).inside = true → s.holder = some a
  slot : ∀ a i, s.Live a → ((s.pc a).slot = some i ↔ s.tenant i = some a)
  inactive : ∀ i, (s.slots i).status = .inactive ↔ s.tenant i = none
  recorded : ∀ i a, s.tenant i = some a → (s.slots i).owner.process? = some a.process ∨
    s.Live a ∧ (s.pc a).unowning = true
  entry : ∀ j < s.settled, ∃ i, s.stack.arr j = some i ∧ s.tenant i = none
  distinct : ∀ j < s.settled, ∀ k < s.settled, s.stack.arr j = s.stack.arr k → j = k
  window : ∀ a, s.holder = some a → ¬s.Live a → (s.pc a).inWindow = false
  localOk : ∀ a, s.holder = some a → s.Live a → LocalOk s a (s.pc a)

theorem inv_initial : Inv (State.initial n) where
  inside := by
    intro a _ h
    cases h
  slot := by
    intro a i _
    simp [State.initial, Pc.slot]
  inactive := by
    intro i
    simp [State.initial]
  recorded := by
    intro i a h
    cases h
  entry := by
    intro j hj
    have hj : j < n := by simpa [State.settled, State.initial, IndexStack.full] using hj
    exact ⟨⟨j, hj⟩, by simp [State.initial, IndexStack.full, hj], rfl⟩
  distinct := by
    intro j hj k hk h
    have hj : j < n := by simpa [State.settled, State.initial, IndexStack.full] using hj
    have hk : k < n := by simpa [State.settled, State.initial, IndexStack.full] using hk
    simpa [State.initial, IndexStack.full, hj, hk] using h
  window := by
    intro a h
    cases h
  localOk := by
    intro a h
    cases h

section

variable {s s' : State n} {a b : Agent} {c c₀ : Pc n} {i : Fin n} {r : Return n}

/-! ### What a step of the holder has to show -/

/-- A step of the live holder of the lock: others keep their control points, so only the memory and
its own control point have to be looked at. -/
theorem Inv.move (hs : Inv s) (ha : s.Live a) (hh : s.holder = some a)
    (hexited : s'.exited = s.exited) (hholder : s'.holder = some a) (hpc : s'.pc = update s.pc a c)
    (htenant : ∀ b i, b ≠ a → s.Live b → (s'.tenant i = some b ↔ s.tenant i = some b))
    (hslot : ∀ i, c.slot = some i ↔ s'.tenant i = some a)
    (hinactive : ∀ i, (s'.slots i).status = .inactive ↔ s'.tenant i = none)
    (hrecorded : ∀ i b, s'.tenant i = some b →
      (s'.slots i).owner.process? = some b.process ∨ b = a ∧ c.unowning = true)
    (hentry : ∀ j < s'.settled, ∃ i, s'.stack.arr j = some i ∧ s'.tenant i = none)
    (hdistinct : ∀ j < s'.settled, ∀ k < s'.settled, s'.stack.arr j = s'.stack.arr k → j = k)
    (hlocal : LocalOk s' a c) : Inv s' := by
  have hself : s'.pc a = c := by rw [hpc, update_self]
  have hother : ∀ b, b ≠ a → s'.pc b = s.pc b := by
    intro b hb
    rw [hpc, update_of_ne hb]
  have hlive : ∀ b, s'.Live b ↔ s.Live b := by
    intro b
    rw [State.Live, State.Live, hexited]
  constructor
  · intro b hb hin
    by_cases hba : b = a
    · rw [hba, hholder]
    · rw [hother b hba] at hin
      have hb' := hs.inside b ((hlive b).1 hb) hin
      exact absurd (Option.mem_unique hb' hh) hba
  · intro b i hb
    obtain rfl | hba := eq_or_ne b a
    · rw [hself]
      exact hslot i
    · rw [hother b hba, htenant b i hba ((hlive b).1 hb)]
      exact hs.slot b i ((hlive b).1 hb)
  · exact hinactive
  · intro i b hb
    refine (hrecorded i b hb).imp id ?_
    rintro ⟨rfl, hun⟩
    exact ⟨(hlive b).2 ha, by rw [hself, hun]⟩
  · exact hentry
  · exact hdistinct
  · intro b hb hdead
    obtain rfl : a = b := Option.mem_unique hholder hb
    exact absurd ((hlive a).2 ha) hdead
  · intro b hb _
    obtain rfl : a = b := Option.mem_unique hholder hb
    rw [hself]
    exact hlocal

/-- Who clears the owner of a slot is the holder of the lock. -/
theorem Inv.holder_of_unowning (hs : Inv s) (hb : s.Live b) (hun : (s.pc b).unowning = true) :
    s.holder = some b := by
  refine hs.inside b hb ?_
  by_contra hout
  have := Pc.not_inside (Bool.eq_false_iff.2 hout)
  simp [Pc.inWindow, hun] at this

/-- The live holder of the lock is the only one whose slot may be without a recorded owner. -/
theorem Inv.recorded_of_holder (hs : Inv s) (hh : s.holder = some a) (hb : s.tenant i = some b) :
    (s.slots i).owner.process? = some b.process ∨ b = a ∧ (s.pc a).unowning = true := by
  refine (hs.recorded i b hb).imp id ?_
  rintro ⟨hlive, hun⟩
  obtain rfl : a = b := Option.some.inj (hh.symm.trans (hs.holder_of_unowning hlive hun))
  exact ⟨rfl, hun⟩

theorem Inv.vacant (hs : Inv s) (h : s.Free i) : s.tenant i = none := by
  obtain ⟨j, hj, hji⟩ := h
  obtain ⟨k, hk, hnone⟩ := hs.entry j hj
  obtain rfl : i = k := Option.mem_unique hji hk
  exact hnone

theorem State.settled_of_pc (hh : s.holder = some a) (hpc : s.pc a = c₀) (h : c₀.reserving = false) :
    s.settled = s.stack.count := by
  rw [State.settled_of_holder hh, hpc, h]
  rfl

section

variable (hs : Inv s) (ha : s.Live a) (hpc : s.pc a = c₀)

include hs ha hpc

theorem Inv.slot_of (h : s.tenant i = some a) : c₀.slot = some i := by
  rw [← hpc]
  exact (hs.slot a i ha).2 h

/-! ### Steps into and out of the lock -/

/-- An agent moves on and the lock with it; the memory stays as it is. -/
theorem Inv.transfer {h : Option Agent} (hslot : c.slot = c₀.slot) (hun : c₀.unowning = false)
    (hsettled : ({ s with holder := h }.goto a c).settled = s.settled)
    (hself : c.inside = true → h = some a)
    (hother : ∀ b, b ≠ a → s.Live b → (s.pc b).inside = true → h = some b)
    (hwindow : ∀ b, h = some b → ¬s.Live b → (s.pc b).inWindow = false)
    (hlocal : ∀ b, h = some b → s.Live b →
      LocalOk ({ s with holder := h }.goto a c) b (({ s with holder := h }.goto a c).pc b)) :
    Inv ({ s with holder := h }.goto a c) := by
  subst hpc
  have hpc : ({ s with holder := h }.goto a c).pc a = c := State.pc_goto_self _ _ _
  have hpcs : ∀ b, b ≠ a → ({ s with holder := h }.goto a c).pc b = s.pc b :=
    fun b hb => update_of_ne hb _ _
  constructor
  · intro b hb hin
    by_cases hba : b = a
    · rw [hba, hpc] at hin
      exact hba ▸ hself hin
    · rw [hpcs b hba] at hin
      exact hother b hba hb hin
  · intro b i hb
    obtain rfl | hba := eq_or_ne b a
    · rw [hpc, hslot]
      exact hs.slot b i hb
    · rw [hpcs b hba]
      exact hs.slot b i hb
  · exact hs.inactive
  · intro i b hb
    refine (hs.recorded i b hb).imp id ?_
    rintro ⟨hlive, hun'⟩
    refine ⟨hlive, ?_⟩
    rw [hpcs b, hun']
    rintro rfl
    simp [hun] at hun'
  · rw [hsettled]
    exact hs.entry
  · rw [hsettled]
    exact hs.distinct
  · intro b hb hdead
    rw [hpcs b]
    · exact hwindow b hb hdead
    · rintro rfl
      exact hdead ha
  · exact hlocal

/-- An agent moves between control points outside the lock. -/
theorem Inv.outside (hout : c₀.inside = false) (hc : c.inside = false) (hslot : c.slot = c₀.slot) :
    Inv (s.goto a c) := by
  have hwin := Pc.not_inside hout
  have hwin' := Pc.not_inside hc
  rw [Pc.inWindow, Bool.or_eq_false_iff] at hwin hwin'
  have hother : ∀ b, b ≠ a → (s.goto a c).pc b = s.pc b := fun b hb => update_of_ne hb _ _
  have hsettled : (s.goto a c).settled = s.settled := by
    cases hh : s.holder with
    | none => simp [State.settled, State.goto, hh]
    | some b =>
      rw [State.settled_of_holder hh, State.settled_of_holder (s := s.goto a c) hh]
      by_cases hb : b = a
      · rw [hb, State.pc_goto_self, hpc, hwin.1, hwin'.1]
        rfl
      · rw [hother b hb]
        rfl
  refine hs.transfer ha hpc hslot hwin.2 hsettled (fun hin => ?_)
    (fun b _ hb => hs.inside b hb) hs.window fun b hb hlive => ?_
  · rw [hc] at hin
    cases hin
  · change LocalOk (s.goto a c) b ((s.goto a c).pc b)
    obtain rfl | hba := eq_or_ne b a
    · rw [State.pc_goto_self]
      cases c <;> trivial
    · have hfree : ∀ i, (s.goto a c).Free i ↔ s.Free i := by
        intro i
        rw [State.Free, State.Free, hsettled]
        rfl
      rw [hother b hba]
      exact (hs.localOk b hb hlive).congr hfree rfl (fun _ => rfl) rfl subset_rfl

/-- The lock is free or its holder is dead, in no window: an agent takes it. -/
theorem Inv.lock (h : s.lock a c = some s') (hout : c₀.inside = false) (hwindow : c.inWindow = false)
    (hslot : c.slot = c₀.slot) (hlocal : LocalOk s' a c) : Inv s' := by
  obtain ⟨hfree, ⟨⟩⟩ := Machine.of_guard h
  have hwin := Pc.not_inside hout
  rw [Pc.inWindow, Bool.or_eq_false_iff] at hwin hwindow
  have hself : ({ s with holder := some a }.goto a c).pc a = c := State.pc_goto_self _ _ _
  have hcount : s.settled = s.stack.count := by
    cases hh : s.holder with
    | none => simp [State.settled, hh]
    | some b =>
      have hdead := hs.window b hh (State.lockFree_iff.1 hfree b hh)
      rw [Pc.inWindow, Bool.or_eq_false_iff] at hdead
      exact State.settled_of_pc hh rfl hdead.1
  have hsettled : ({ s with holder := some a }.goto a c).settled = s.settled :=
    (State.settled_of_pc rfl hself hwindow.1).trans hcount.symm
  refine hs.transfer ha hpc hslot hwin.2 hsettled (fun _ => rfl) (fun b _ hb hin => ?_)
    (fun b hb hdead => ?_) fun b hb _ => ?_
  · exact absurd hb (State.lockFree_iff.1 hfree b (hs.inside b hb hin))
  · exact absurd (Option.some.inj hb ▸ ha) hdead
  · obtain rfl : a = b := Option.some.inj hb
    rw [hself]
    exact hlocal

variable (hin : c₀.inside = true)

include hin

theorem Inv.holds : s.holder = some a :=
  hs.inside a ha (hpc ▸ hin)

theorem Inv.knows : LocalOk s a c₀ := by
  have h := hs.localOk a (hs.holds ha hpc hin) ha
  rwa [hpc] at h

theorem Inv.recorded_of (hb : s.tenant i = some b) :
    (s.slots i).owner.process? = some b.process ∨ b = a ∧ c₀.unowning = true := by
  rw [← hpc]
  exact hs.recorded_of_holder (hs.holds ha hpc hin) hb

/-- The holder leaves the lock. -/
theorem Inv.unlock (hwindow : c₀.inWindow = false) (hc : c.inside = false)
    (hslot : c.slot = c₀.slot) : Inv (s.unlock a c) := by
  have hh := hs.holds ha hpc hin
  rw [Pc.inWindow, Bool.or_eq_false_iff] at hwindow
  have hsettled : (s.unlock a c).settled = s.settled := by
    rw [State.settled_of_pc hh hpc hwindow.1]
    rfl
  refine hs.transfer ha hpc hslot hwindow.2 hsettled (fun hin' => ?_) (fun b hba hb hbin => ?_) nofun
    nofun
  · rw [hc] at hin'
    cases hin'
  · exact absurd (Option.some.inj ((hs.inside b hb hbin).symm.trans hh)) hba

/-! ### Stores under the lock -/

/-- A step of the holder that leaves the stack alone. -/
theorem Inv.store {f : Fin n → Slot} {t : Fin n → Option Agent}
    (hc₀ : c₀.reserving = false) (hc : c.reserving = false)
    (htenant : ∀ b i, b ≠ a → s.Live b → (t i = some b ↔ s.tenant i = some b))
    (hslot : ∀ i, c.slot = some i ↔ t i = some a)
    (hinactive : ∀ i, (f i).status = .inactive ↔ t i = none)
    (hrecorded : ∀ i b, t i = some b →
      (f i).owner.process? = some b.process ∨ b = a ∧ c.unowning = true)
    (hvacant : ∀ i, s.Free i → t i = none)
    (hlocal : (∀ i, ({ s with slots := f, tenant := t }.goto a c).Free i ↔ s.Free i) →
      LocalOk ({ s with slots := f, tenant := t }.goto a c) a c) :
    Inv ({ s with slots := f, tenant := t }.goto a c) := by
  have hh := hs.holds ha hpc hin
  have hsettled : ({ s with slots := f, tenant := t }.goto a c).settled = s.settled := by
    rw [State.settled_of_pc hh hpc hc₀]
    exact State.settled_of_pc hh (State.pc_goto_self _ a c) hc
  refine hs.move ha hh rfl hh rfl htenant hslot hinactive hrecorded ?_ ?_ (hlocal fun i => ?_)
  · rw [hsettled]
    intro j hj
    obtain ⟨i, hi, -⟩ := hs.entry j hj
    exact ⟨i, hi, hvacant i ⟨j, hj, hi⟩⟩
  · rw [hsettled]
    exact hs.distinct
  · rw [State.Free, State.Free, hsettled]
    rfl

/-- A step of the holder that stores nothing. -/
theorem Inv.goto (hslot : c.slot = c₀.slot) (hwindow : c₀.inWindow = false)
    (hc : c.reserving = false)
    (hlocal : (∀ i, (s.goto a c).Free i ↔ s.Free i) → LocalOk (s.goto a c) a c) :
    Inv (s.goto a c) := by
  rw [Pc.inWindow, Bool.or_eq_false_iff] at hwindow
  refine hs.store ha hpc hin hwindow.1 hc (fun _ _ _ _ => Iff.rfl) ?_
    hs.inactive ?_ (fun i => hs.vacant) hlocal
  · intro i
    rw [hslot, ← hpc]
    exact hs.slot a i ha
  · intro i b hb
    refine (hs.recorded_of ha hpc hin hb).imp id ?_
    rintro ⟨-, hun⟩
    simp [hwindow.2] at hun

/-- A step of the holder that changes nothing but the stack, of which `m` entries are in place. -/
theorem Inv.restack {st : IndexStack n} {m : ℕ} (hslot : c.slot = c₀.slot)
    (hun : c₀.unowning = false) (hm : (if c.reserving then st.count - 1 else st.count) = m)
    (hentry : ∀ j < m, ∃ i, st.arr j = some i ∧ s.tenant i = none)
    (hdistinct : ∀ j < m, ∀ k < m, st.arr j = st.arr k → j = k)
    (hlocal : ({ s with stack := st }.goto a c).settled = m →
      LocalOk ({ s with stack := st }.goto a c) a c) : Inv ({ s with stack := st }.goto a c) := by
  have hh := hs.holds ha hpc hin
  have hsettled : ({ s with stack := st }.goto a c).settled = m :=
    (State.settled_goto (s := { s with stack := st }) hh).trans hm
  refine hs.move ha hh rfl hh rfl (fun _ _ _ _ => Iff.rfl) ?_ hs.inactive ?_ ?_ ?_ (hlocal hsettled)
  · intro i
    rw [hslot, ← hpc]
    exact hs.slot a i ha
  · intro i b hb
    refine (hs.recorded_of ha hpc hin hb).imp id ?_
    rintro ⟨-, h⟩
    simp [hun] at h
  · rwa [hsettled]
  · rwa [hsettled]

/-- A step of the holder that leaves the entries of the stack in place. -/
theorem Inv.restackSame {st : IndexStack n} (hslot : c.slot = c₀.slot)
    (hun : c₀.unowning = false)
    (hm : (if c.reserving then st.count - 1 else st.count) = s.settled)
    (harr : ∀ j < s.settled, st.arr j = s.stack.arr j)
    (hlocal : (∀ j, ({ s with stack := st }.goto a c).Free j ↔ s.Free j) →
      LocalOk ({ s with stack := st }.goto a c) a c) : Inv ({ s with stack := st }.goto a c) := by
  refine hs.restack ha hpc hin hslot hun hm ?_ ?_ fun hsettled => hlocal fun j => ?_
  · intro j hj
    obtain ⟨i, hi, hnone⟩ := hs.entry j hj
    exact ⟨i, (harr j hj).trans hi, hnone⟩
  · intro j hj k hk hjk
    exact hs.distinct j hj k hk ((harr j hj).symm.trans (hjk.trans (harr k hk)))
  · rw [State.Free, State.Free, hsettled]
    refine exists_congr fun k => and_congr_right fun hk => ?_
    exact harr k hk ▸ Iff.rfl

/-- A word of the owner of a slot is stored: the slot has no tenant, or the agent is retiring from
it. -/
theorem Inv.storeOwner {o : Owner} (hslot : c.slot = c₀.slot)
    (hc₀ : c₀.reserving = false) (hc : c.reserving = false)
    (hi : s.tenant i = none ∧ c₀.unowning = false ∨ s.tenant i = some a ∧ c.unowning = true)
    (hlocal : (∀ j, ((s.setOwner i o).goto a c).Free j ↔ s.Free j) →
      LocalOk ((s.setOwner i o).goto a c) a c) : Inv ((s.setOwner i o).goto a c) := by
  refine hs.store ha hpc hin hc₀ hc (fun _ _ _ _ => Iff.rfl) ?_ ?_ ?_ (fun j => hs.vacant) hlocal
  · intro j
    rw [hslot, ← hpc]
    exact hs.slot a j ha
  · intro j
    refine Iff.trans ?_ (hs.inactive j)
    obtain rfl | hj := eq_or_ne j i
    · simp
    · simp [hj]
  · intro j b hb
    obtain rfl | hj := eq_or_ne j i
    · obtain ⟨hnone, -⟩ | ⟨hsome, hun⟩ := hi
      · simp [hnone] at hb
      · obtain rfl : a = b := Option.mem_unique hsome hb
        exact .inr ⟨rfl, hun⟩
    · rw [update_of_ne hj]
      refine (hs.recorded_of ha hpc hin hb).imp id ?_
      rintro ⟨rfl, hun⟩
      obtain ⟨-, hun'⟩ | ⟨hsome, -⟩ := hi
      · simp [hun'] at hun
      · have := (hs.slot_of ha hpc hb).symm.trans (hs.slot_of ha hpc hsome)
        exact absurd (Option.some.inj this) hj

/-- The status of a slot is stored, and with it the slot gets or loses its tenant. -/
theorem Inv.seat {status : ReaderStatus} {t : Option Agent}
    (hc₀ : c₀.reserving = false) (hc : c.reserving = false)
    (hstatus : status = .inactive ↔ t = none)
    (hother : ∀ b, b ≠ a → s.Live b → (t = some b ↔ s.tenant i = some b))
    (hslot : ∀ j, c.slot = some j ↔ update s.tenant i t j = some a)
    (hun : c₀.unowning = true → s.tenant i = some a)
    (howner : ∀ b, t = some b → (s.slots i).owner.process? = some b.process)
    (hvacant : s.Free i → t = none)
    (hlocal : (∀ j, (((s.setStatus i status).setTenant i t).goto a c).Free j ↔ s.Free j) →
      LocalOk (((s.setStatus i status).setTenant i t).goto a c) a c) :
    Inv (((s.setStatus i status).setTenant i t).goto a c) := by
  refine hs.store (f := update s.slots i { s.slots i with status := status })
    (t := update s.tenant i t) ha hpc hin hc₀ hc ?_ hslot ?_ ?_ ?_ hlocal
  · intro b j hba hb
    by_cases hj : j = i
    · rw [hj, update_self]
      exact hother b hba hb
    · rw [update_of_ne hj]
  · intro j
    by_cases hj : j = i
    · rw [hj, update_self, update_self]
      exact hstatus
    · rw [update_of_ne hj, update_of_ne hj]
      exact hs.inactive j
  · intro j b hb
    refine .inl ?_
    obtain rfl | hj := eq_or_ne j i
    · rw [update_self] at hb ⊢
      exact howner b hb
    · rw [update_of_ne hj] at hb ⊢
      obtain hrec | ⟨rfl, hun'⟩ := hs.recorded_of ha hpc hin hb
      · exact hrec
      · have := (hs.slot_of ha hpc hb).symm.trans (hs.slot_of ha hpc (hun hun'))
        exact absurd (Option.some.inj this) hj
  · intro j hj
    by_cases hji : j = i
    · rw [hji, update_self]
      exact hvacant (hji ▸ hj)
    · rw [update_of_ne hji]
      exact hs.vacant hj

/-- A slot becomes INACTIVE: its tenant retires, or is dead. -/
theorem Inv.deactivate (hb : s.tenant i = some b)
    (hdead : b = a ∨ ¬s.Live b) (hc₀ : c₀.reserving = false)
    (hun : c₀.unowning = true → s.tenant i = some a) (hc : c.reserving = false) (hslot : c.slot = none)
    (hone : ∀ j, c₀.slot = some j → j = i)
    (hlocal : (∀ j, (((s.setStatus i .inactive).setTenant i none).goto a c).Free j ↔ s.Free j) →
      LocalOk (((s.setStatus i .inactive).setTenant i none).goto a c) a c) :
    Inv (((s.setStatus i .inactive).setTenant i none).goto a c) := by
  refine hs.seat ha hpc hin hc₀ hc (by simp) ?_ ?_ hun nofun (fun _ => rfl) hlocal
  · intro d hda hd
    refine ⟨(nomatch ·), fun h => ?_⟩
    obtain rfl : b = d := Option.mem_unique hb h
    exact (hdead.elim hda fun hdead => hdead hd).elim
  · intro j
    rw [hslot]
    refine ⟨(nomatch ·), fun h => ?_⟩
    obtain rfl | hj := eq_or_ne j i
    · simp at h
    · rw [update_of_ne hj] at h
      exact absurd (hone j (hs.slot_of ha hpc h)) hj

/-- A slot that is not on the stack and records the process of the agent becomes ACTIVE. -/
theorem Inv.activate (hnone : s.tenant i = none) (hfree : ¬s.Free i) (hwindow : c₀.inWindow = false)
    (hslot : c₀.slot = none) (howner : (s.slots i).owner.process? = some a.process) :
    Inv (((s.setStatus i .active).setTenant i (some a)).goto a (.admitted i)) := by
  rw [Pc.inWindow, Bool.or_eq_false_iff] at hwindow
  refine hs.seat ha hpc hin hwindow.1 rfl (by simp) ?_ ?_ ?_ ?_ (fun h => absurd h hfree) fun _ => trivial
  · intro b hba _
    simp [hnone, Ne.symm hba]
  · intro j
    obtain rfl | hj := eq_or_ne j i
    · simp [Pc.slot]
    · have hne : s.tenant j ≠ some a := by
        intro h
        have := hs.slot_of ha hpc h
        simp [hslot] at this
      simp [Pc.slot, hj, hne, Ne.symm hj]
  · simp [hwindow.2]
  · rintro b ⟨⟩
    exact howner

end

/-! ### Deaths, evictions and resumptions -/

theorem Inv.exit (hs : Inv s) {p : Process} (hsafe : SafeDeath s (.exit p)) :
    Inv { s with exited := insert p s.exited } := by
  have hlive : ∀ b, State.Live { s with exited := insert p s.exited } b → s.Live b :=
    fun b hb hmem => hb (Finset.mem_insert_of_mem hmem)
  have hdies : ∀ b, s.Live b → ¬State.Live { s with exited := insert p s.exited } b →
      b.process = p := by
    intro b hb hdead
    by_contra hp
    refine hdead fun hmem => ?_
    obtain h | h := Finset.mem_insert.1 hmem
    · exact hp h
    · exact hb h
  constructor
  · exact fun b hb => hs.inside b (hlive b hb)
  · exact fun b i hb => hs.slot b i (hlive b hb)
  · exact hs.inactive
  · intro i b hb
    obtain hrec | ⟨hb', hun⟩ := hs.recorded i b hb
    · exact .inl hrec
    · refine .inr ⟨?_, hun⟩
      by_contra hdead
      -- `b` would be the holder of the lock, in a window
      simp [SafeDeath, hs.holder_of_unowning hb' hun, hdies b hb' hdead, Pc.inWindow, hun] at hsafe
  · exact hs.entry
  · exact hs.distinct
  · intro b hb hdead
    by_cases hb' : s.Live b
    · have hb : s.holder = some b := hb
      simpa [SafeDeath, hb, hdies b hb' hdead] using hsafe
    · exact hs.window b hb hb'
  · intro b hb hb'
    exact (hs.localOk b hb (hlive b hb')).congr (fun _ => Iff.rfl) rfl (fun _ => rfl) rfl
      (Finset.subset_insert _ _)

/-- The status of a slot with a tenant changes, not to INACTIVE. -/
theorem Inv.restatus (hs : Inv s) {status : ReaderStatus}
    (hi : (s.slots i).status ≠ .inactive) (hstatus : status ≠ .inactive) :
    Inv (s.setStatus i status) := by
  have howner : ∀ j, ((s.setStatus i status).slots j).owner = (s.slots j).owner := by
    intro j
    obtain rfl | hj := eq_or_ne j i
    · simp [State.setStatus]
    · simp [State.setStatus, hj]
  refine { hs with inactive := ?_, recorded := ?_, localOk := ?_ }
  · intro j
    refine Iff.trans ?_ (hs.inactive j)
    obtain rfl | hj := eq_or_ne j i
    · simp [State.setStatus, hi, hstatus]
    · simp [State.setStatus, hj]
  · intro j b hb
    rw [howner j]
    exact hs.recorded j b hb
  · intro b hb hb'
    exact (hs.localOk b hb hb').congr (fun _ => Iff.rfl) rfl howner rfl subset_rfl

/-! ### Pushes -/

theorem Return.slot_next {pushed : Bool} : (r.next pushed).slot = none := by
  cases r <;> rfl

theorem Return.reserving_next {pushed : Bool} :
    (r.next pushed).reserving = false := by
  cases r <;> rfl

/-- With slot `i` on the stack, the call that pushed it goes on. -/
theorem ReturnOk.next {pushed : Bool} (h : ReturnOk s i r)
    (hfree : ∀ j, s.Free j → s'.Free j) (hi : s'.Free i)
    (htenant : ∀ j b, s'.tenant j = some b → s.tenant j = some b) (hexited : s.exited ⊆ s'.exited) :
    LocalOk s' a (r.next pushed) := by
  cases r with
  | failed | retired => trivial
  | scan c k =>
    obtain ⟨rfl, hscan⟩ := h
    have hscan' : ScanOk s' c i := hscan.congr hfree (fun j _ => htenant j) hexited
    refine ⟨hscan'.orphan, fun hclean j hj hlt => ?_⟩
    obtain hji | hji := Nat.lt_succ_iff_lt_or_eq.1 hlt
    · exact hscan'.freed hclean j hj hji
    · rw [Fin.ext hji]
      exact hi

/-! ### The loop of `scavenge_orphans` -/

/-- The loop passes over slot `i`: it is no orphan, or the call is no longer clean. -/
theorem ScanOk.skip {d : Scan n} (h : ScanOk s d i) {clean : Bool}
    (hclean : clean = true → d.clean = true ∧ i ∉ d.orphans) :
    ScanOk s { d with clean := clean } (i + 1) where
  orphan := h.orphan
  freed := by
    intro hc j hj hlt
    obtain ⟨hold, hi⟩ := hclean hc
    obtain hji | hji := Nat.lt_succ_iff_lt_or_eq.1 hlt
    · exact h.freed hold j hj hji
    · exact absurd (Fin.ext hji ▸ hj) hi

/-! ### The steps of an agent under the lock -/

section

variable (hs : Inv s) (ha : s.Live a)

include hs ha

/-- The constructor pops a slot, or leaves. -/
theorem Inv.admitStep {scavenged : Bool} (hpc : s.pc a = .admitLocked scavenged)
    (h : s.admitStep a scavenged = some s') : Inv s' := by
  have hsettled : s.settled = s.stack.count := State.settled_of_pc (hs.holds ha hpc rfl) hpc rfl
  unfold State.admitStep at h
  split at h
  · cases h
    refine hs.unlock ha hpc rfl rfl ?_ ?_
    · cases scavenged <;> rfl
    · cases scavenged <;> rfl
  · split at h
    next i hi =>
      cases h
      have hlt : s.stack.count - 1 < s.settled := by omega
      obtain ⟨i', hi', hnone⟩ := hs.entry _ hlt
      obtain rfl : i = i' := Option.mem_unique hi hi'
      refine hs.restack ha hpc rfl rfl rfl rfl ?_ ?_ fun hsettled' => ⟨hnone, ?_⟩
      · intro j hj
        exact hs.entry j (hj.trans hlt)
      · intro j hj k hk
        exact hs.distinct j (hj.trans hlt) k (hk.trans hlt)
      · rintro ⟨j, hj, hji⟩
        rw [hsettled'] at hj
        exact hj.ne (hs.distinct j (hj.trans hlt) _ hlt (hji.trans hi.symm))
    next => cases h

/-- `pop_or` clears the entry it took. -/
theorem Inv.clearEntry (hpc : s.pc a = .popped i) :
    Inv ((s.setEntry s.stack.count none).goto a (.reserved i)) := by
  have hlocal := hs.knows ha hpc rfl
  have hsettled : s.settled = s.stack.count := State.settled_of_pc (hs.holds ha hpc rfl) hpc rfl
  refine hs.restackSame ha hpc rfl rfl rfl hsettled.symm (fun j hj => ?_) fun hfree => ?_
  · exact update_of_ne (hsettled ▸ hj).ne _ _
  · exact ⟨hlocal.1, fun hi => hlocal.2 ((hfree i).1 hi)⟩

/-- The constructor stores a word of its owner, and last the status. -/
theorem Inv.publish {o : Owner} {k : ℕ} (hpc : s.pc a = .publish i o k) (ch : Choice)
    (h : s.advance a ch = some s') : Inv s' := by
  obtain ⟨hnone, hfree, ho, hk, hpid, hstamp⟩ := hs.knows ha hpc rfl
  simp only [State.advance, hpc] at h
  split_ifs at h with hlt
  · cases h
    have hself : ((s.setOwner i (o.store (s.slots i).owner k)).goto a
        (.publish i o (k + 1))).slots i = { s.slots i with owner := o.store (s.slots i).owner k } :=
      update_self _ _ _
    refine hs.storeOwner ha hpc rfl rfl rfl rfl (.inl ⟨hnone, rfl⟩) fun hsame =>
      ⟨hnone, fun hi => hfree ((hsame i).1 hi), ho, hlt, ?_, ?_⟩
    · intro _
      rw [hself]
      exact Owner.pid_store hpid
    · intro hk2
      rw [hself]
      exact Owner.startStamp_store (by omega) hstamp
  · cases h
    have hk8 : k = Owner.words := by omega
    subst hk8
    refine hs.activate ha hpc rfl hnone hfree rfl rfl ?_
    exact Owner.process?_eq_some ((hpid (by decide)).trans ho.1) ((hstamp (by decide)).trans ho.2)

/-- The destructor clears a word of its owner, and last the status. -/
theorem Inv.clearing {k : ℕ} (hpc : s.pc a = .clearing i k) (ch : Choice)
    (h : s.advance a ch = some s') : Inv s' := by
  have htenant : s.tenant i = some a := (hs.slot a i ha).1 (by rw [hpc]; rfl)
  simp only [State.advance, hpc] at h
  split_ifs at h with hlt
  · cases h
    exact hs.storeOwner ha hpc rfl rfl rfl rfl (.inr ⟨htenant, by simp [Pc.unowning]⟩) fun _ => hlt
  · cases h
    refine hs.deactivate ha hpc rfl htenant (.inl rfl) rfl (fun _ => htenant) rfl rfl ?_ fun _ =>
      ⟨update_self _ _ _, trivial⟩
    intro j hj
    exact (Option.some.inj hj).symm

/-- The first store of a push, or none when the stack has the slot. -/
theorem Inv.pushStep {countFirst : Bool} (hpc : s.pc a = .push i r)
    (h : s.pushStep a i r countFirst = some s') : Inv s' := by
  obtain ⟨hnone, hr⟩ := hs.knows ha hpc rfl
  have hsettled : s.settled = s.stack.count := State.settled_of_pc (hs.holds ha hpc rfl) hpc rfl
  have hnew : ¬s.stack.contains i = true → ¬s.Free i := by
    rintro hcontains ⟨j, hj, hji⟩
    exact hcontains (IndexStack.contains_iff.2 ⟨j, hsettled ▸ hj, hji⟩)
  unfold State.pushStep at h
  split_ifs at h with hcontains hfull hfirst
  all_goals cases h
  · refine hs.goto ha hpc rfl Return.slot_next rfl Return.reserving_next fun hfree => ?_
    refine hr.next (fun j => (hfree j).2) ((hfree i).2 ?_) (fun _ _ hb => hb) subset_rfl
    obtain ⟨j, hj, hji⟩ := IndexStack.contains_iff.1 hcontains
    exact ⟨j, hsettled ▸ hj, hji⟩
  · refine hs.restackSame ha hpc rfl rfl rfl hsettled.symm (fun _ _ => rfl) fun hfree => ?_
    exact ⟨hnone, fun hi => hnew hcontains ((hfree i).1 hi), Nat.le_add_left 1 _,
      hr.congr (fun j => (hfree j).2) (fun _ _ hb => hb) subset_rfl⟩
  · refine hs.restackSame ha hpc rfl rfl rfl hsettled.symm (fun j hj => ?_) fun hfree => ?_
    · exact update_of_ne (hsettled ▸ hj).ne _ _
    · exact ⟨hnone, fun hi => hnew hcontains ((hfree i).1 hi), update_self _ _ _,
        hr.congr (fun j => (hfree j).2) (fun _ _ hb => hb) subset_rfl⟩

/-- The second store of a push puts the slot on the stack. -/
theorem Inv.pushed (hpc : s.pc a = c₀) (hin : c₀.inside = true) (hslot : c₀.slot = none)
    (hun : c₀.unowning = false) (hnone : s.tenant i = none) (hi : ¬s.Free i) (hr : ReturnOk s i r)
    {m : ℕ} {f : ℕ → Option (Fin n)} (hm : s.settled = m) (harr : ∀ j < m, f j = s.stack.arr j)
    (hlast : f m = some i) : Inv ({ s with stack := ⟨f, m + 1⟩ }.goto a (r.next true)) := by
  subst hm
  have hcases : ∀ j < s.settled + 1, j < s.settled ∧ f j = s.stack.arr j ∨
      j = s.settled ∧ f j = some i := by
    intro j hj
    obtain hj | rfl := Nat.lt_succ_iff_lt_or_eq.1 hj
    · exact .inl ⟨hj, harr j hj⟩
    · exact .inr ⟨rfl, hlast⟩
  refine hs.restack (m := s.settled + 1) ha hpc hin ?_ hun ?_ ?_ ?_ fun hsettled => ?_
  · rw [Return.slot_next, hslot]
  · rw [Return.reserving_next]
    rfl
  · intro j hj
    obtain ⟨hj, hji⟩ | ⟨-, hji⟩ := hcases j hj
    · obtain ⟨k, hk, hk'⟩ := hs.entry j hj
      exact ⟨k, hji.trans hk, hk'⟩
    · exact ⟨i, hji, hnone⟩
  · intro j hj k hk hjk
    change f j = f k at hjk
    obtain ⟨hj, hji⟩ | ⟨rfl, hji⟩ := hcases j hj <;>
      obtain ⟨hk, hki⟩ | ⟨rfl, hki⟩ := hcases k hk
    · exact hs.distinct j hj k hk (hji.symm.trans (hjk.trans hki))
    · exact absurd ⟨j, hj, hji.symm.trans (hjk.trans hki)⟩ hi
    · exact absurd ⟨k, hk, hki.symm.trans (hjk.symm.trans hji)⟩ hi
    · rfl
  · refine hr.next ?_ ?_ (fun _ _ hb => hb) subset_rfl
    · rintro j ⟨k, hk, hkj⟩
      refine ⟨k, ?_, (harr k hk).trans hkj⟩
      rw [hsettled]
      exact Nat.lt_succ_of_lt hk
    · exact ⟨s.settled, by rw [hsettled]; exact Nat.lt_succ_self _, hlast⟩

theorem Inv.scanStep {d : Scan n} {ch : Choice} (hpc : s.pc a = .scan d i)
    (h : s.scanStep a ch d i = some s') : Inv s' := by
  have hscan : ScanOk s d i := hs.knows ha hpc rfl
  have hgoto : ∀ c : Pc n, c.slot = none → c.reserving = false → LocalOk s a c → Inv (s.goto a c) := by
    intro c hc hres hlocal
    exact hs.goto ha hpc rfl hc rfl hres fun hfree =>
      hlocal.congr hfree rfl (fun _ => rfl) rfl subset_rfl
  have htenant : (s.slots i).status ≠ .inactive → ∃ b, s.tenant i = some b := by
    intro hstatus
    rw [Ne, hs.inactive i] at hstatus
    exact Option.ne_none_iff_exists'.1 hstatus
  -- nobody clears an owner, so the owner of a slot is that of its tenant
  have hexited_iff : ∀ b, s.tenant i = some b → (s.ownerExited i = true ↔ ¬s.Live b) := by
    intro b hb
    obtain hrec | ⟨-, ⟨⟩⟩ := hs.recorded_of ha hpc rfl hb
    rw [State.ownerExited, hrec]
    simp [State.Live]
  unfold State.scanStep at h
  split_ifs at h with hinactive herror hdead hexited herror
  all_goals cases h
  · exact hgoto _ rfl rfl (hscan.skip (by simp))
  · exact hgoto _ rfl rfl ⟨(hs.inactive i).1 hinactive, Nat.zero_le _, hscan⟩
  · exact hgoto _ rfl rfl (hscan.skip (by simp))
  · obtain ⟨b, hb⟩ := htenant hinactive
    have hb' := (hexited_iff b hb).1 (Bool.eq_true_of_not_eq_false hexited)
    refine hs.deactivate ha hpc rfl hb (.inr hb') rfl nofun rfl rfl nofun fun hfree => ?_
    refine ⟨update_self _ _ _, Nat.zero_le _, ?_⟩
    have hscan' : ScanOk s { d with freed := true } i := ⟨hscan.orphan, hscan.freed⟩
    refine hscan'.congr (fun j => (hfree j).2) (fun j _ b hb => ?_) subset_rfl
    obtain ⟨-, ⟨⟩⟩ | ⟨-, hb⟩ := Updates.update_cases hb
    exact hb
  · refine hgoto _ rfl rfl (hscan.skip ?_)
    intro hclean
    rw [Bool.and_eq_true, Bool.not_eq_true'] at hclean
    refine ⟨hclean.1, fun horphan => ?_⟩
    obtain ⟨b, hb⟩ := htenant hinactive
    have := (hexited_iff b hb).2 (hscan.orphan i horphan b hb)
    simp [hclean.2] at this

/-- The call clears a word of the owner of the slot it frees, and goes on to the push. -/
theorem Inv.freeing {d : Scan n} {k : ℕ} (hpc : s.pc a = .freeing d i k) (ch : Choice)
    (h : s.advance a ch = some s') : Inv s' := by
  obtain ⟨hnone, hk, hscan⟩ := hs.knows ha hpc rfl
  simp only [State.advance, hpc] at h
  split_ifs at h with hlt
  · cases h
    exact hs.storeOwner ha hpc rfl rfl rfl rfl (.inl ⟨hnone, rfl⟩) fun hfree => ⟨hnone, hlt,
      hscan.congr (fun j => (hfree j).2) (fun _ _ _ hb => hb) subset_rfl⟩
  · cases h
    exact hs.goto ha hpc rfl rfl rfl rfl fun hfree => ⟨hnone, rfl,
      hscan.congr (fun j => (hfree j).2) (fun _ _ _ hb => hb) subset_rfl⟩

/-! ### All steps -/

theorem Inv.advance {ch : Choice} (h : s.advance a ch = some s') : Inv s' := by
  cases hpc : s.pc a
  case publish i o k => exact hs.publish ha hpc ch h
  case clearing i k => exact hs.clearing ha hpc ch h
  case freeing d i k => exact hs.freeing ha hpc ch h
  all_goals simp only [State.advance, hpc] at h
  case idle | owns => cases h
  case admission scavenged | retire i => exact hs.lock ha hpc h rfl rfl rfl trivial
  case admitLocked scavenged => exact hs.admitStep ha hpc h
  case popped i =>
    cases h
    exact hs.clearEntry ha hpc
  case reserved i =>
    obtain ⟨hnone, hi⟩ := hs.knows ha hpc rfl
    split_ifs at h
    · cases h
      exact hs.goto ha hpc rfl rfl rfl rfl fun _ => ⟨hnone, trivial⟩
    · cases h
      exact hs.goto ha hpc rfl rfl rfl rfl fun hfree => ⟨hnone, fun h => hi ((hfree i).1 h),
        ⟨rfl, rfl⟩, Nat.zero_le _, by simp, by simp⟩
  case admitted i | leave =>
    cases h
    exact hs.unlock ha hpc rfl rfl rfl rfl
  case retireLocked i =>
    split_ifs at h
    · cases h
      exact hs.unlock ha hpc rfl rfl rfl rfl
    · cases h
      exact hs.goto ha hpc rfl rfl rfl rfl fun _ => Nat.zero_le _
  case push i r => exact hs.pushStep ha hpc h
  case pushing i countFirst r =>
    have hh : s.holder = some a := hs.holds ha hpc rfl
    cases countFirst with
    | true =>
      obtain ⟨hnone, hi, hcount, hr⟩ := hs.knows ha hpc rfl
      have hsettled : s.settled = s.stack.count - 1 := by
        rw [State.settled_of_holder hh, hpc]
        rfl
      cases h
      have hpush := hs.pushed ha hpc rfl rfl rfl hnone hi hr hsettled
        (fun j hj => update_of_ne hj.ne _ _) (update_self _ _ _)
      rwa [Nat.sub_add_cancel hcount] at hpush
    | false =>
      obtain ⟨hnone, hi, harr, hr⟩ := hs.knows ha hpc rfl
      cases h
      exact hs.pushed ha hpc rfl rfl rfl hnone hi hr (State.settled_of_pc hh hpc rfl)
        (fun _ _ => rfl) harr
  case scavenge forAdmission =>
    refine hs.lock ha hpc h rfl rfl rfl ⟨?_, ?_⟩
    · obtain ⟨-, ⟨⟩⟩ := Machine.of_guard h
      intro i hi b hb hlive
      have hb : s.tenant i = some b := hb
      have hlive : b.process ∉ s.exited := hlive
      simp [State.ownedByLive, hb, hlive] at hi
    · intro _ i _ hi
      cases hi
  case scan d k =>
    split at h
    next hk => exact hs.scanStep ha hpc h
    next =>
      cases h
      refine hs.unlock ha hpc rfl rfl ?_ ?_
      · split_ifs <;> rfl
      · split_ifs <;> rfl

end

/-- Every step, and every death outside the windows, keeps the invariant. -/
theorem Inv.step (hs : Inv s) {act : Action n} (hsafe : SafeDeath s act) (h : s.step act = some s') :
    Inv s' := by
  cases act with
  | construct a | scavenge a =>
    obtain ⟨hidle, rfl⟩ := Machine.of_guard h
    exact hs.outside hidle.1 hidle.2 rfl rfl rfl
  | destroy a =>
    simp only [State.step] at h
    split at h
    next i hpc =>
      split_ifs at h with ha
      cases h
      exact hs.outside ha hpc rfl rfl rfl
    next => cases h
  | advance a ch =>
    simp only [State.step] at h
    split_ifs at h with ha
    exact hs.advance ha h
  | evict i =>
    obtain ⟨hi, rfl⟩ := Machine.of_guard h
    exact hs.restatus (by simp [hi.2]) (by simp)
  | resume a =>
    simp only [State.step] at h
    split at h
    next i hpc =>
      split_ifs at h with hi
      cases h
      exact hs.restatus (by simp [hi.2]) (by simp)
    next => cases h
  | exit p =>
    cases h
    exact hs.exit hsafe

end

/-- The invariant holds in every state of a run without a death in a window. -/
theorem reachable_inv {s : State n} (h : (machine n).ReachableUnder SafeDeath s) : Inv s := by
  refine h.invariant ?_ ?_
  · rintro s rfl
    exact inv_initial
  · intro s act s' _ hs hsafe hstep
    exact hs.step hsafe hstep

end Sintra.Ring.Slots
