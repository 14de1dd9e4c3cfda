import Sintra.Ring.Guards

/-!
# The invariant of the reader guards

What holds in every reachable state, whatever the interleaving and whoever died.

A live reader has its slot for itself, and the pending octile and the COPYING bit of the slot are those
its control point says (`Owned`). While one of the two is set, the slot is ACTIVE and guards what the
control point says. A slot that is not ACTIVE guards nothing. Whoever clears a slot under the lock is
alone with it (`alone`), so that what it has found there stays true (`Clears`).
-/

namespace Sintra.Ring.Guards

open Function

open Slots (Agent)

variable {n : ℕ}

/-! ### What a control point says -/

/-- The slot of a reader whose slot is cleared. -/
def Purpose.slot (i : Fin n) : Purpose → Option (Fin n)
  | .retire => some i
  | _ => none

def Entry.slot : Entry n → Option (Fin n)
  | .retire i | .done i | .rollback i _ => some i
  | _ => none

def Exit.slot : Exit n → Option (Fin n)
  | .owns i _ => some i
  | .retire i => some i
  | _ => none

def Query.slot : Query n → Option (Fin n)
  | .rollback i _ => some i
  | .rollbackAgain i _ _ => some i
  | .unpaired i _ _ p => p.slot i
  | _ => none

/-- Whether the guards are counted under the lock. -/
def Query.inside : Query n → Bool
  | .blocking _ _ => false
  | _ => true

def Query.claims : Query n → Option (Fin n)
  | .unpaired i _ _ _ => some i
  | _ => none

namespace Pc

/-- The slot a reader owns. -/
def slot : Pc n → Option (Fin n)
  | .owns i _ => some i
  | .wait e => e.slot
  | .leave x => x.slot
  | .acquire i _ _ | .acquirePending i _ _ | .acquireAdded i _ _ | .acquireMoved i _ _
  | .release i | .released i _ | .settle i _ _ | .copy i | .copying i _ | .done i
  | .doneCount i _ | .donePending i _ | .doneRequest i => some i
  | .clear i _ p | .clearGuard i _ _ p | .clearPending i _ _ p | .clearCount i _ p
  | .unpaired i _ p | .unpairedSwap i _ _ p => p.slot i
  | .count q _ _ => q.slot
  | .probe q _ _ => q.slot
  | .retire i | .retireOwner i | .retireFlags i | .retireStatus i | .rollback i _
  | .rollbackAgain i _ | .rollbackSwap i _ _ => some i
  | _ => none

/-- The agent is between lock and unlock. -/
def inside : Pc n → Bool
  | .idle | .owns _ _ | .wait _ | .acquire _ _ _ | .acquirePending _ _ _ | .acquireAdded _ _ _
  | .acquireMoved _ _ _ | .release _ | .released _ _ | .settle _ _ _ | .copy _ | .copying _ _
  | .writer _ | .closing | .check _ | .blocked _ _ | .recheck _ _ | .reclaim _ _ => false
  | .count q _ _ | .probe q _ _ => q.inside
  | _ => true

/-- The slot an agent clears, with the lock. -/
def claims : Pc n → Option (Fin n)
  | .clear i _ _ | .clearGuard i _ _ _ | .clearPending i _ _ _ | .clearCount i _ _
  | .unpaired i _ _ | .unpairedSwap i _ _ _ => some i
  | .count q _ _ | .probe q _ _ => q.claims
  | .publish i | .admitLoad i | .admitStore i _ | .retire i | .retireOwner i | .retireFlags i
  | .retireStatus i | .orphan i _ | .orphanStatus i _ | .orphanFlags i _ | .orphanOwner i _ =>
    some i
  | _ => none

/-- The pending octile of the slot. -/
def pending : Pc n → Option Octile
  | .acquirePending _ o _ => some o
  | .acquireAdded _ o _ => some o
  | .acquireMoved _ _ p => some p
  | .released _ o | .settle _ o _ | .doneCount _ o => some o
  | .donePending _ o => o
  | _ => none

/-- The COPYING bit of the slot. -/
def marked : Pc n → Bool
  | .copying _ _ => true
  | _ => false

/-- The owner of the slot is cleared. -/
def unowned : Pc n → Bool
  | .retireFlags _ => true
  | .retireStatus _ => true
  | _ => false

/-- What a reader knows about its slot while it is pending or copying. -/
def GuardOk (status : ReaderStatus) (guard : Option Octile) : Pc n → Prop
  | .acquirePending _ _ previous | .acquireAdded _ _ previous => status = .active ∧ guard = previous
  | .acquireMoved _ o _ => status = .active ∧ guard = some o
  | .released _ _ => status = .active ∧ guard = none
  | .settle _ _ _ => status = .active
  | .copying _ o => status = .active ∧ guard = some o
  | .doneCount _ _ | .donePending _ (some _) => status = .active ∧ guard = none
  | _ => True

/-- What an agent knows about the slot it clears. The release of a count without a guard is never
reached. -/
def Clears (p : Process) (w : ReaderState) (owner : Option Process) : Pc n → Prop
  | .clear _ mode _ => mode = .unpaired → w.status ≠ .active
  | .clearGuard _ guard mode _ => guard = w.guard ∧ (mode = .unpaired → guard = none)
  | .clearPending _ guard mode _ => w.guard = none ∧ (mode = .unpaired → guard = none)
  | .clearCount _ _ _ => w.guard = none ∧ w.pending = none
  | .unpaired _ _ _ => False
  | .unpairedSwap _ _ _ _ => False
  | .count q _ _ | .probe q _ _ => q.claims = none
  | .publish _ => w.guard = none ∧ w.pending = none
  | .admitLoad _ => w.guard = none ∧ w.pending = none ∧ owner = some p
  | .admitStore _ v => v.guard = none ∧ v.pending = none ∧ owner = some p
  | .retireOwner _ | .retireFlags _ | .retireStatus _ | .orphanStatus _ _ =>
    w.guard = none ∧ w.pending = none
  | _ => True

end Pc

/-- A live reader and the words of its slot. -/
structure Owned (c : Pc n) (a : Agent) (w : ReaderState) (owner : Option Process) : Prop where
  status : w.status ≠ .inactive
  owner : owner = some a.process ∨ c.unowned = true
  pending : w.pending = c.pending
  copying : w.copying = c.marked
  guard : c.GuardOk w.status w.guard

/-- A slot that is not ACTIVE guards nothing. -/
def WordOk (w : ReaderState) : Prop := w.status ≠ .active → w.guard = none ∧ w.pending = none

/-- What others may do to the word of a live reader's slot: set or clear REQUEST, and evict it if it is
neither pending nor copying. -/
structure Spares (w w' : ReaderState) : Prop where
  pending : w'.pending = w.pending
  copying : w'.copying = w.copying
  status : w.status ≠ .inactive → w'.status ≠ .inactive
  kept : w.pending.isSome = true ∨ w.copying = true → w'.status = w.status ∧ w'.guard = w.guard

def State.Live (s : State n) (a : Agent) : Prop := a.process ∉ s.exited

/-- No other live agent has the slot. -/
def State.Alone (s : State n) (a : Agent) (i : Fin n) : Prop :=
  ∀ b, s.Live b → (s.pc b).slot = some i → b = a

structure Inv (s : State n) : Prop where
  lock : ∀ a, s.Live a → (s.pc a).inside = true → s.holder = some a
  unique : ∀ a b i, s.Live a → s.Live b → (s.pc a).slot = some i → (s.pc b).slot = some i → a = b
  owned : ∀ a i, s.Live a → (s.pc a).slot = some i → Owned (s.pc a) a (s.slots i) (s.owner i)
  word : ∀ i, WordOk (s.slots i)
  alone : ∀ a i, s.Live a → (s.pc a).claims = some i → ∀ b, s.Live b → (s.pc b).slot = some i → b = a
  clears : ∀ a i, s.Live a → (s.pc a).claims = some i →
    (s.pc a).Clears a.process (s.slots i) (s.owner i)

theorem inv_initial : Inv (State.initial n) where
  lock := by
    intro a _ h
    cases h
  unique := by
    intro a b i _ _ h
    cases h
  owned := by
    intro a i _ h
    cases h
  word := by
    intro i _
    exact ⟨rfl, rfl⟩
  alone := by
    intro a i _ h
    cases h
  clears := by
    intro a i _ h
    cases h

section

variable {s : State n} {a : Agent} {e : Effect n} {c : Pc n}
  {i : Fin n} {c₀ : Pc n} {w : ReaderState} {p : Option Process}

theorem Owned.congr {c' : Pc n} (h : Owned c a w p) (hpending : c'.pending = c.pending)
    (hmarked : c'.marked = c.marked) (hunowned : c.unowned = true → c'.unowned = true)
    (hguard : c.GuardOk w.status w.guard → c'.GuardOk w.status w.guard) : Owned c' a w p where
  status := h.status
  owner := h.owner.imp_right hunowned
  pending := h.pending.trans hpending.symm
  copying := h.copying.trans hmarked.symm
  guard := hguard h.guard

/-- A control point with neither bit knows nothing that others could break. -/
theorem Pc.guardOk_of_clear {status : ReaderStatus} {guard : Option Octile}
    (hpending : c.pending = none) (hmarked : c.marked = false) : c.GuardOk status guard := by
  cases c with
  | donePending i o =>
    obtain rfl : o = none := hpending
    trivial
  | _ => trivial

theorem Spares.refl (w : ReaderState) : Spares w w where
  pending := rfl
  copying := rfl
  status := id
  kept _ := ⟨rfl, rfl⟩

/-- What a reader knows survives what others may do to its slot. -/
theorem Owned.spares {w' : ReaderState} (h : Owned c a w p) (hw : Spares w w') :
    Owned c a w' p where
  status := hw.status h.status
  owner := h.owner
  pending := hw.pending.trans h.pending
  copying := hw.copying.trans h.copying
  guard := by
    by_cases hbits : c.pending = none ∧ c.marked = false
    · exact Pc.guardOk_of_clear hbits.1 hbits.2
    · have hset : w.pending.isSome = true ∨ w.copying = true := by
        rw [h.pending, h.copying, Option.isSome_iff_ne_none]
        by_cases hpending : c.pending = none
        · exact .inr (by simpa [hpending] using hbits)
        · exact .inl hpending
      obtain ⟨hstatus, hguard⟩ := hw.kept hset
      rw [hstatus, hguard]
      exact h.guard

/-! ### One step -/

theorem State.pc_goto_self (s : State n) (a : Agent) (c : Pc n) : (s.goto a c).pc a = c :=
  update_self _ _ _

theorem State.pc_goto_of_ne (s : State n) {a b : Agent} (c : Pc n) (h : b ≠ a) :
    (s.goto a c).pc b = s.pc b :=
  update_of_ne h _ _

theorem State.pc_apply (s : State n) (a : Agent) (e : Effect n) : (s.apply a e).pc = s.pc := by
  cases e <;> rfl

theorem State.exited_apply (s : State n) (a : Agent) (e : Effect n) :
    (s.apply a e).exited = s.exited := by
  cases e <;> rfl

theorem State.live_move (s : State n) (a : Agent) (e : Effect n) (c : Pc n) (b : Agent) :
    ((s.apply a e).goto a c).Live b ↔ s.Live b := by
  unfold State.Live
  rw [State.goto, State.exited_apply]

theorem State.pc_move (s : State n) (a : Agent) (e : Effect n) (c : Pc n) (b : Agent) (h : b ≠ a) :
    ((s.apply a e).goto a c).pc b = s.pc b := by
  rw [State.pc_goto_of_ne _ _ h, State.pc_apply]

theorem Pc.inside_of_claims (h : c.claims = some i) : c.inside = true := by
  cases c with
  | count q k sum | probe q k sum =>
    cases q with
    | unpaired => rfl
    | _ => cases h
  | _ => first | rfl | cases h

/-- The effect leaves slots, owners and the lock alone. -/
def Effect.quiet : Effect n → Bool
  | .word _ _ | .owner _ _ | .lock | .unlock => false
  | _ => true

theorem State.apply_quiet (s : State n) (a : Agent) (he : e.quiet = true) :
    (s.apply a e).slots = s.slots ∧ (s.apply a e).owner = s.owner ∧
      (s.apply a e).holder = s.holder := by
  cases e <;> first | exact ⟨rfl, rfl, rfl⟩ | cases he

theorem State.lockFree_iff {s : State n} :
    s.lockFree = true ↔ ∀ a, s.holder = some a → ¬s.Live a := by
  simp [lockFree, Live, Option.all_eq_true]

theorem Entry.slot_pc (x : Entry n) : x.pc.slot = x.slot := by
  cases x <;> rfl

theorem Entry.claims_pc {x : Entry n} (h : x.pc.claims = some i) :
    x.slot = some i ∧ ∀ p w owner, x.pc.Clears p w owner := by
  cases x with
  | retire j => exact ⟨h, fun _ _ _ => trivial⟩
  | _ => cases h

theorem Pc.slot_passFrom (o : Octile) (k : ℕ) (published : Bool) :
    (Pc.passFrom (n := n) o k published).slot = none ∧
      (Pc.passFrom (n := n) o k published).claims = none ∧
      (Pc.passFrom (n := n) o k published).inside = false := by
  unfold Pc.passFrom
  split_ifs <;> exact ⟨rfl, rfl, rfl⟩

/-- What is done after the lock is released is outside, and about the same slot. -/
theorem Exit.pc_outside (x : Exit n) :
    x.pc.slot = x.slot ∧ x.pc.claims = none ∧ x.pc.inside = false := by
  cases x with
  | scavenged c =>
    cases c with
    | pass o published => exact Pc.slot_passFrom o 0 published
    | _ => exact ⟨rfl, rfl, rfl⟩
  | cancelled c => cases c <;> exact ⟨rfl, rfl, rfl⟩
  | pass o k published => exact Pc.slot_passFrom o k published
  | throw published => cases published <;> exact ⟨rfl, rfl, rfl⟩
  | _ => exact ⟨rfl, rfl, rfl⟩

theorem Exit.pc_bits {x : Exit n} (h : x.slot = some i) :
    x.pc.pending = none ∧ x.pc.marked = false := by
  cases x with
  | owns j r | retire j => exact ⟨rfl, rfl⟩
  | _ => cases h

section

variable (hs : Inv s) (ha : s.Live a)

include hs ha

/-- What a step of an agent has to show. -/
theorem Inv.move (hin : c.inside = true → (s.apply a e).holder = some a)
    (hlock : ∀ b, b ≠ a → s.Live b → s.holder = some b → (s.apply a e).holder = some b)
    (hslot : ∀ i, c.slot = some i → s.Alone a i)
    (howned : ∀ i, c.slot = some i → Owned c a ((s.apply a e).slots i) ((s.apply a e).owner i))
    (hword : ∀ i, WordOk ((s.apply a e).slots i))
    (hclaims : ∀ i, c.claims = some i → s.Alone a i ∧
      c.Clears a.process ((s.apply a e).slots i) ((s.apply a e).owner i))
    (hspares : ∀ b i, b ≠ a → s.Live b → (s.pc b).slot = some i →
      Spares (s.slots i) ((s.apply a e).slots i) ∧ (s.apply a e).owner i = s.owner i)
    (hothers : ∀ b i, b ≠ a → s.Live b → (s.pc b).claims = some i →
      (s.apply a e).slots i = s.slots i ∧ (s.apply a e).owner i = s.owner i ∧ c.slot ≠ some i) :
    Inv ((s.apply a e).goto a c) := by
  have hlive := s.live_move a e c
  have hself := State.pc_goto_self (s.apply a e) a c
  have hother := s.pc_move a e c
  constructor
  · intro b hb hinside
    obtain rfl | hba := eq_or_ne b a
    · rw [hself] at hinside
      exact hin hinside
    · rw [hother b hba] at hinside
      exact hlock b hba ((hlive b).1 hb) (hs.lock b ((hlive b).1 hb) hinside)
  · intro b d i hb hd hbi hdi
    rw [hlive] at hb hd
    obtain rfl | hba := eq_or_ne b a
    · by_cases hdb : d = b
      · exact hdb.symm
      · rw [hself] at hbi
        rw [hother d hdb] at hdi
        exact (hslot i hbi d hd hdi).symm
    · rw [hother b hba] at hbi
      obtain rfl | hda := eq_or_ne d a
      · rw [hself] at hdi
        exact hslot i hdi b hb hbi
      · rw [hother d hda] at hdi
        exact hs.unique b d i hb hd hbi hdi
  · intro b i hb hbi
    obtain rfl | hba := eq_or_ne b a
    · rw [hself] at hbi ⊢
      exact howned i hbi
    · rw [hother b hba] at hbi ⊢
      obtain ⟨hspare, howner⟩ := hspares b i hba ((hlive b).1 hb) hbi
      have hold := hs.owned b i ((hlive b).1 hb) hbi
      rw [← howner] at hold
      exact hold.spares hspare
  · exact hword
  · intro b i hb hbi d hd hdi
    rw [hlive] at hb hd
    obtain rfl | hba := eq_or_ne b a
    · by_cases hdb : d = b
      · exact hdb
      · rw [hself] at hbi
        rw [hother d hdb] at hdi
        exact (hclaims i hbi).1 d hd hdi
    · rw [hother b hba] at hbi
      obtain rfl | hda := eq_or_ne d a
      · rw [hself] at hdi
        exact absurd hdi (hothers b i hba hb hbi).2.2
      · rw [hother d hda] at hdi
        exact hs.alone b i hb hbi d hd hdi
  · intro b i hb hbi
    obtain rfl | hba := eq_or_ne b a
    · rw [hself] at hbi ⊢
      exact (hclaims i hbi).2
    · rw [hother b hba] at hbi ⊢
      obtain ⟨hslots, howner, -⟩ := hothers b i hba ((hlive b).1 hb) hbi
      show (s.pc b).Clears b.process ((s.apply a e).slots i) ((s.apply a e).owner i)
      rw [hslots, howner]
      exact hs.clears b i ((hlive b).1 hb) hbi

/-! ### Steps by what they do to the memory -/

/-- Who clears a slot is alone with it. -/
theorem Inv.claim (hi : (s.pc a).claims = some i) : s.Alone a i :=
  fun b hb hbi => hs.alone a i ha hi b hb hbi

theorem Inv.own (hi : (s.pc a).slot = some i) : s.Alone a i :=
  fun b hb hbi => hs.unique b a i hb ha hbi hi

/-- Two agents do not work under the lock at once. -/
theorem Inv.excl (hin : (s.pc a).inside = true) {b : Agent} (hb : s.Live b)
    (hbin : (s.pc b).inside = true) : b = a :=
  Option.some.inj ((hs.lock b hb hbin).symm.trans (hs.lock a ha hin))

/-- A step that only moves on, or changes the counts. -/
theorem Inv.quiet (he : e.quiet = true) (hin : c.inside = true → (s.pc a).inside = true)
    (howned : ∀ i, c.slot = some i → (s.pc a).slot = some i ∧ Owned c a (s.slots i) (s.owner i))
    (hclaims : ∀ i, c.claims = some i → s.Alone a i ∧ c.Clears a.process (s.slots i) (s.owner i)) :
    Inv ((s.apply a e).goto a c) := by
  obtain ⟨hslots, howner, hholder⟩ := s.apply_quiet a he
  refine hs.move ha ?_ ?_ ?_ ?_ ?_ ?_ ?_ ?_
  · intro hc
    rw [hholder]
    exact hs.lock a ha (hin hc)
  · intro b _ _ hb
    rwa [hholder]
  · intro i hi
    exact hs.own ha (howned i hi).1
  · intro i hi
    rw [hslots, howner]
    exact (howned i hi).2
  · rw [hslots]
    exact hs.word
  · rwa [hslots, howner]
  · intro b i _ _ _
    rw [hslots, howner]
    exact ⟨.refl _, rfl⟩
  · intro b i hba hb hbi
    refine ⟨by rw [hslots], by rw [howner], fun hi => hba ?_⟩
    exact (hs.alone b i hb hbi a ha (howned i hi).1).symm

/-- A step that writes the word of a slot. -/
theorem Inv.write (hown : (s.pc a).slot = some i ∨ (s.pc a).inside = true)
    (hin : c.inside = true → (s.pc a).inside = true) (hw : WordOk w)
    (hspares : s.Alone a i ∨ Spares (s.slots i) w)
    (howned : ∀ j, c.slot = some j → s.Alone a j ∧ Owned c a (update s.slots i w j) (s.owner j))
    (hnew : ∀ j, c.slot = some j → (s.pc a).slot = some j ∨ (s.pc a).inside = true)
    (hclaims : ∀ j, c.claims = some j → s.Alone a j ∧
      c.Clears a.process (update s.slots i w j) (s.owner j)) :
    Inv ((s.apply a (.word i w)).goto a c) := by
  -- an agent that clears a slot has the lock, so only a reader outside could write it: its own
  have hapart : ∀ b j, b ≠ a → s.Live b → (s.pc b).claims = some j →
      (s.pc a).slot ≠ some j ∧ (s.pc a).inside ≠ true := by
    intro b j hba hb hbj
    refine ⟨fun hj => hba (hs.alone b j hb hbj a ha hj).symm, fun hain => hba ?_⟩
    exact hs.excl ha hain hb (Pc.inside_of_claims hbj)
  refine hs.move ha ?_ (fun b _ _ hb => hb) ?_ ?_ ?_ hclaims ?_ ?_
  · intro hc
    exact hs.lock a ha (hin hc)
  · intro j hj
    exact (howned j hj).1
  · intro j hj
    exact (howned j hj).2
  · intro j
    show WordOk (update s.slots i w j)
    by_cases hji : j = i
    · rw [hji, update_self]
      exact hw
    · rw [update_of_ne hji]
      exact hs.word j
  · intro b j hba hb hbj
    refine ⟨?_, rfl⟩
    show Spares (s.slots j) (update s.slots i w j)
    obtain rfl | hji := eq_or_ne j i
    · rw [update_self]
      obtain halone | hspare := hspares
      · exact absurd (halone b hb hbj) hba
      · exact hspare
    · rw [update_of_ne hji]
      exact .refl _
  · intro b j hba hb hbj
    obtain ⟨hslot, hinside⟩ := hapart b j hba hb hbj
    refine ⟨?_, rfl, ?_⟩
    · refine update_of_ne ?_ _ _
      rintro rfl
      exact hown.elim hslot hinside
    · intro hj
      exact (hnew j hj).elim hslot hinside

theorem Inv.enter {x : Entry n} (hpc : s.pc a = .wait x) (hfree : s.lockFree = true) :
    Inv ((s.apply a .lock).goto a x.pc) := by
  have hslot : (s.pc a).slot = x.slot := by rw [hpc]; rfl
  refine hs.move ha (fun _ => rfl) ?_ ?_ ?_ hs.word ?_ (fun b i _ _ _ => ⟨.refl _, rfl⟩) ?_
  · intro b _ hb hholder
    exact absurd hb (State.lockFree_iff.1 hfree b hholder)
  · intro i hi
    rw [Entry.slot_pc, ← hslot] at hi
    exact hs.own ha hi
  · intro i hi
    rw [Entry.slot_pc, ← hslot] at hi
    have howned := hs.owned a i ha hi
    rw [hpc] at howned
    refine howned.congr ?_ ?_ (nomatch ·) fun _ => ?_
    · cases x <;> rfl
    · cases x <;> rfl
    · cases x <;> trivial
  · intro i hi
    obtain ⟨hxi, hclears⟩ := Entry.claims_pc hi
    exact ⟨hs.own ha (hslot.trans hxi), hclears _ _ _⟩
  · intro b i hba hb hbi
    have hholder := hs.lock b hb (Pc.inside_of_claims hbi)
    exact absurd hb (State.lockFree_iff.1 hfree b hholder)

theorem Inv.exit {x : Exit n} (hpc : s.pc a = .leave x) : Inv ((s.apply a .unlock).goto a x.pc) := by
  have hslot : (s.pc a).slot = x.slot := by rw [hpc]; rfl
  have hin : (s.pc a).inside = true := by rw [hpc]; rfl
  obtain ⟨hxslot, hxclaims, hxinside⟩ := x.pc_outside
  refine hs.move ha ?_ ?_ ?_ ?_ hs.word ?_ (fun b i _ _ _ => ⟨.refl _, rfl⟩) ?_
  · intro hc
    simp [hxinside] at hc
  · intro b hba _ hholder
    exact absurd (Option.some.inj (hholder.symm.trans (hs.lock a ha hin))) hba
  · intro i hi
    rw [hxslot, ← hslot] at hi
    exact hs.own ha hi
  · intro i hi
    rw [hxslot] at hi
    have howned := hs.owned a i ha (hslot.trans hi)
    rw [hpc] at howned
    obtain ⟨hpending, hmarked⟩ := Exit.pc_bits hi
    exact howned.congr hpending hmarked (nomatch ·) fun _ => Pc.guardOk_of_clear hpending hmarked
  · intro i hi
    simp [hxclaims] at hi
  · intro b i hba hb hbi
    exact absurd (hs.excl ha hin hb (Pc.inside_of_claims hbi)) hba

variable (hpc : s.pc a = c₀)

include hpc

/-- What the reader of a slot knows at its control point, … -/
theorem Inv.owned_of (hi : c₀.slot = some i) : Owned c₀ a (s.slots i) (s.owner i) := by
  subst hpc
  exact hs.owned a i ha hi

/-- … and who clears it. -/
theorem Inv.clears_of (hi : c₀.claims = some i) : c₀.Clears a.process (s.slots i) (s.owner i) := by
  subst hpc
  exact hs.clears a i ha hi

/-- A reader writes the word of its own slot. -/
theorem Inv.writeOwn (hi : c₀.slot = some i) (hslot : c.slot = some i)
    (hin : c.inside = true → c₀.inside = true) (hw : WordOk w) (hstatus : w.status ≠ .inactive)
    (hpending : w.pending = c.pending) (hcopying : w.copying = c.marked)
    (hguard : c.GuardOk w.status w.guard) (hunowned : c₀.unowned = false)
    (hclaims : c.claims = none) : Inv ((s.apply a (.word i w)).goto a c) := by
  subst hpc
  refine hs.write ha (.inl hi) hin hw (.inl (hs.own ha hi)) ?_ ?_ ?_
  all_goals intro j hj
  · obtain rfl : i = j := Option.mem_unique hslot hj
    rw [update_self]
    refine ⟨hs.own ha hi, ⟨hstatus, ?_, hpending, hcopying, hguard⟩⟩
    exact .inl ((hs.owned a i ha hi).owner.resolve_right (by simp [hunowned]))
  · rw [hslot] at hj
    exact .inl (hi.trans hj)
  · simp [hclaims] at hj

/-- The holder of the lock writes the word of a slot it does not clear. -/
theorem Inv.writeSpare (hin : c₀.inside = true) (hslot : c.slot = none) (hclaims : c.claims = none)
    (hw : WordOk w) (hspares : Spares (s.slots i) w) : Inv ((s.apply a (.word i w)).goto a c) := by
  subst hpc
  refine hs.write ha (.inr hin) (fun _ => hin) hw (.inr hspares) ?_ ?_ ?_
  all_goals intro j hj
  · simp [hslot] at hj
  · simp [hslot] at hj
  · simp [hclaims] at hj

/-- The holder of the lock writes the word of a slot it clears. -/
theorem Inv.writeClaim (hi : c₀.claims = some i) (hw : WordOk w)
    (hslot : ∀ j, c.slot = some j → j = i ∧ Owned c a w (s.owner i))
    (hclaims : ∀ j, c.claims = some j → j = i ∧ c.Clears a.process w (s.owner i)) :
    Inv ((s.apply a (.word i w)).goto a c) := by
  subst hpc
  have hin := Pc.inside_of_claims hi
  refine hs.write ha (.inr hin) (fun _ => hin) hw (.inl (hs.claim ha hi)) ?_ (fun _ _ => .inr hin) ?_
  · intro j hj
    obtain ⟨rfl, howned⟩ := hslot j hj
    rw [update_self]
    exact ⟨hs.claim ha hi, howned⟩
  · intro j hj
    obtain ⟨rfl, hclears⟩ := hclaims j hj
    rw [update_self]
    exact ⟨hs.claim ha hi, hclears⟩

/-- The holder of the lock writes the owner of a slot it clears. -/
theorem Inv.setOwner (hi : c₀.claims = some i)
    (hslot : ∀ j, c.slot = some j → j = i ∧ Owned c a (s.slots i) p)
    (hclaims : ∀ j, c.claims = some j → j = i ∧ c.Clears a.process (s.slots i) p) :
    Inv ((s.apply a (.owner i p)).goto a c) := by
  subst hpc
  have hin := Pc.inside_of_claims hi
  refine hs.move ha (fun _ => hs.lock a ha hin) (fun b _ _ hb => hb) ?_ ?_ hs.word ?_ ?_ ?_
  · intro j hj
    obtain ⟨rfl, -⟩ := hslot j hj
    exact hs.claim ha hi
  · intro j hj
    obtain ⟨rfl, howned⟩ := hslot j hj
    show Owned c a (s.slots j) (update s.owner j p j)
    rwa [update_self]
  · intro j hj
    obtain ⟨rfl, hclears⟩ := hclaims j hj
    refine ⟨hs.claim ha hi, ?_⟩
    show c.Clears a.process (s.slots j) (update s.owner j p j)
    rwa [update_self]
  · intro b j hba hb hbj
    refine ⟨.refl _, update_of_ne ?_ _ _⟩
    rintro rfl
    exact hba (hs.claim ha hi b hb hbj)
  · intro b j hba hb hbj
    exact absurd (hs.excl ha hin hb (Pc.inside_of_claims hbj)) hba

variable (he : e.quiet = true) (hin : c.inside = true → c₀.inside = true)

include he hin

/-- A quiet step to a point without a slot. -/
theorem Inv.still (hslot : c.slot = none) (hclaims : c.claims = none) :
    Inv ((s.apply a e).goto a c) := by
  subst hpc
  refine hs.quiet ha he hin ?_ ?_
  · intro i hi
    simp [hslot] at hi
  · intro i hi
    simp [hclaims] at hi

/-- A quiet step of a reader that keeps its slot. -/
theorem Inv.keep (hi : c₀.slot = some i) (hslot : c.slot = some i)
    (hpending : c.pending = c₀.pending) (hmarked : c.marked = c₀.marked)
    (hunowned : c₀.unowned = true → c.unowned = true)
    (hguard : ∀ status guard, c₀.GuardOk status guard → c.GuardOk status guard)
    (hclaims : ∀ j, c.claims = some j → j = i ∧ c.Clears a.process (s.slots i) (s.owner i)) :
    Inv ((s.apply a e).goto a c) := by
  subst hpc
  refine hs.quiet ha he hin ?_ ?_
  · intro j hj
    obtain rfl : i = j := Option.mem_unique hslot hj
    exact ⟨hi, (hs.owned a i ha hi).congr hpending hmarked hunowned (hguard _ _)⟩
  · intro j hj
    obtain ⟨rfl, hclears⟩ := hclaims j hj
    exact ⟨hs.own ha hi, hclears⟩

/-- A quiet step of a reader between points at which its slot is neither pending nor copying. -/
theorem Inv.clear (hi : c₀.slot = some i) (hslot : c.slot = some i)
    (hbits : c₀.pending = none ∧ c₀.marked = false ∧ c₀.unowned = false)
    (hbits' : c.pending = none ∧ c.marked = false) (hclaims : c.claims = none) :
    Inv ((s.apply a e).goto a c) := by
  obtain ⟨hpending, hmarked, hunowned⟩ := hbits
  refine hs.keep ha hpc he hin hi hslot (hbits'.1.trans hpending.symm) (hbits'.2.trans hmarked.symm)
    ?_ ?_ ?_
  · intro h
    simp [hunowned] at h
  · intro _ _ _
    exact Pc.guardOk_of_clear hbits'.1 hbits'.2
  · intro j hj
    simp [hclaims] at hj

end

end

end Sintra.Ring.Guards
