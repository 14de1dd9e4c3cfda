import Sintra.Ring.GuardsInvariant

/-!
# Every step keeps the invariant of the guards

One lemma for each operation of `Sintra.Ring.Guards`, assembled in `Inv.advance`, and from it
`reachable_inv`: the invariant holds in every reachable state.
-/

namespace Sintra.Ring.Guards

open Slots (Agent)

variable {n : ℕ}

section

variable {s : State n} {a : Agent} {e : Effect n} {c : Pc n}

variable {i : Fin n} {ch : Choice} {o : Octile} {w : ReaderState} {p : Purpose} {c₀ : Pc n}
    {q : Query n} {mode : Release} {k sum : ℕ}

/-! ### Words and control points -/

theorem wordOk_of_active (h : w.status = .active) : WordOk w :=
  fun hne => absurd h hne

theorem ReaderState.guard_of_present (h : w.guardPresent = true) :
    w.guard = some w.guardOctile := if_pos h

theorem WordOk.clearPending (h : WordOk w) : WordOk w.clearPending :=
  fun hne => ⟨(h hne).1, rfl⟩

theorem Purpose.eq_of_slot {i j : Fin n} (h : p.slot i = some j) : j = i ∧ p = .retire := by
  cases p with
  | retire => exact ⟨(Option.some.inj h).symm, rfl⟩
  | _ => cases h

theorem Purpose.next_views (p : Purpose) (i : Fin n) :
    (p.next i).slot = p.slot i ∧ (p.next i).claims = some i ∧ (p.next i).pending = none ∧
      (p.next i).marked = false := by
  cases p <;> exact ⟨rfl, rfl, rfl, rfl⟩

theorem Purpose.clears_next {q : Process} {owner : Option Process} (hguard : w.guard = none)
    (hpending : w.pending = none) : (p.next i).Clears q w owner := by
  cases p with
  | inactive c => trivial
  | _ => exact ⟨hguard, hpending⟩

/-- The reader in its destructor, after a write to its slot. -/
theorem Owned.rewrite {w w' : ReaderState} {p : Option Process} (h : Owned c₀ a w p)
    (hunowned : c₀.unowned = false) (hmarked : c₀.marked = false)
    (hbits : c.pending = none ∧ c.marked = false) (hstatus : w'.status = w.status)
    (hpending : w'.pending = none) (hcopying : w'.copying = w.copying) : Owned c a w' p where
  status := hstatus ▸ h.status
  owner := by
    obtain howner | hcleared := h.owner
    · exact .inl howner
    · simp [hunowned] at hcleared
  pending := hpending.trans hbits.1.symm
  copying := by rw [hcopying, h.copying, hmarked, hbits.2]
  guard := Pc.guardOk_of_clear hbits.1 hbits.2

/-- REQUEST is nothing the reader of the slot relies on. -/
theorem Spares.request (w : ReaderState) (b : Bool) : Spares w { w with request := b } where
  pending := rfl
  copying := rfl
  status := id
  kept _ := ⟨rfl, rfl⟩

theorem Spares.evicted (hpending : w.pending = none) (hcopying : w.copying = false) :
    Spares w w.evicted where
  pending := rfl
  copying := rfl
  status _ := (nomatch ·)
  kept h := by simp [hpending, hcopying] at h

theorem Pc.returned_views (published : Bool) :
    (Pc.returned (n := n) published).slot = none ∧ (Pc.returned (n := n) published).claims = none ∧
      (Pc.returned (n := n) published).inside = false := by
  cases published <;> exact ⟨rfl, rfl, rfl⟩

/-! ### The steps of a reader -/

section

variable (hs : Inv s) (ha : s.Live a)

include hs ha

theorem Inv.acquireStep {allowEvicted : Bool} (hpc : s.pc a = .acquire i o allowEvicted)
    (h : s.acquireStep ch i o allowEvicted = (e, c)) : Inv ((s.apply a e).goto a c) := by
  have howned := hs.owned_of ha hpc rfl
  simp only [State.acquireStep] at h
  split_ifs at h <;> cases h
  any_goals exact hs.clear ha hpc rfl (nomatch ·) rfl rfl ⟨rfl, rfl, rfl⟩ ⟨rfl, rfl⟩ rfl
  · exact hs.writeOwn ha hpc rfl rfl (nomatch ·) (wordOk_of_active rfl) (nomatch ·) rfl
      howned.copying ⟨rfl, rfl⟩ rfl rfl

theorem Inv.releaseStep (hpc : s.pc a = .release i) (h : s.releaseStep ch i = (e, c)) :
    Inv ((s.apply a e).goto a c) := by
  have howned := hs.owned_of ha hpc rfl
  simp only [State.releaseStep] at h
  split_ifs at h with hstop hok <;> cases h
  any_goals exact hs.clear ha hpc rfl (nomatch ·) rfl rfl ⟨rfl, rfl, rfl⟩ ⟨rfl, rfl⟩ rfl
  · simp only [Bool.and_eq_true, decide_eq_true_eq] at hok
    exact hs.writeOwn ha hpc rfl rfl (nomatch ·) (wordOk_of_active hok.1.1) howned.status rfl
      howned.copying ⟨hok.1.1, rfl⟩ rfl rfl

theorem Inv.copyStep (hpc : s.pc a = .copy i) (h : s.copyStep ch i = (e, c)) :
    Inv ((s.apply a e).goto a c) := by
  have howned := hs.owned_of ha hpc rfl
  simp only [State.copyStep] at h
  split_ifs at h with hstop hevicted hactive hretry <;> cases h
  any_goals exact hs.clear ha hpc rfl (nomatch ·) rfl rfl ⟨rfl, rfl, rfl⟩ ⟨rfl, rfl⟩ rfl
  · have hstatus : (s.slots i).status = .active := not_not.1 hactive
    have hpresent : (s.slots i).guardPresent = true := by
      simp only [Bool.or_eq_true, Bool.not_eq_true', not_or] at hretry
      simpa using hretry.1
    exact hs.writeOwn ha hpc rfl rfl (nomatch ·) (wordOk_of_active hstatus) howned.status
      howned.pending rfl ⟨hstatus, ReaderState.guard_of_present hpresent⟩ rfl rfl

theorem Inv.attach {previous : Option Octile} (hpc : s.pc a = .acquireAdded i o previous) :
    Inv ((s.apply a (.word i ((s.slots i).attached o previous))).goto a
      (.attached i o previous)) := by
  have howned := hs.owned_of ha hpc rfl
  have hactive := howned.guard.1
  cases previous with
  | none =>
    exact hs.writeOwn ha hpc rfl rfl (nomatch ·) (wordOk_of_active hactive) howned.status rfl
      howned.copying trivial rfl rfl
  | some p =>
    exact hs.writeOwn ha hpc rfl rfl (nomatch ·) (wordOk_of_active hactive) howned.status rfl
      howned.copying ⟨hactive, rfl⟩ rfl rfl

theorem Inv.settle {r : Outcome} (hpc : s.pc a = .settle i o r) :
    Inv ((s.apply a (.word i (s.slots i).clearPending)).goto a (.owns i r)) := by
  have howned := hs.owned_of ha hpc rfl
  exact hs.writeOwn ha hpc rfl rfl (nomatch ·) (wordOk_of_active howned.guard) howned.status rfl
    howned.copying trivial rfl rfl

theorem Inv.copied (hpc : s.pc a = .copying i o) :
    Inv ((s.apply a (.word i { s.slots i with copying := false })).goto a (.owns i .copied)) := by
  have howned := hs.owned_of ha hpc rfl
  exact hs.writeOwn ha hpc rfl rfl (nomatch ·) (wordOk_of_active howned.guard.1) howned.status
    howned.pending rfl trivial rfl rfl

theorem Inv.doneStep (hpc : s.pc a = .done i) (hactive : (s.slots i).status = .active) :
    Inv ((s.apply a (.word i (s.slots i).releasing)).goto a
      (.doneCount i (s.slots i).guardOctile)) := by
  have howned := hs.owned_of ha hpc rfl
  exact hs.writeOwn ha hpc rfl rfl (fun _ => rfl) (wordOk_of_active hactive) howned.status rfl
    howned.copying ⟨hactive, rfl⟩ rfl rfl

theorem Inv.donePending {o : Option Octile} (hpc : s.pc a = .donePending i o) :
    Inv ((s.apply a (.word i (s.slots i).clearPending)).goto a (.doneRequest i)) := by
  have howned := hs.owned_of ha hpc rfl
  exact hs.writeOwn ha hpc rfl rfl (fun _ => rfl) (hs.word i).clearPending howned.status rfl
    howned.copying trivial rfl rfl

theorem Inv.doneRequest (hpc : s.pc a = .doneRequest i) :
    Inv ((s.apply a (.word i (s.slots i).clearRequest)).goto a (.leave (.owns i .none))) := by
  have howned := hs.owned_of ha hpc rfl
  exact hs.writeOwn ha hpc rfl rfl (fun _ => rfl) (hs.word i) howned.status howned.pending
    howned.copying trivial rfl rfl

/-! ### The clearing of a slot -/

theorem Inv.clearLoad (hpc : s.pc a = .clear i mode p) :
    Inv ((s.apply a .skip).goto a (.clearGuard i (s.slots i).guard mode p)) := by
  have hclaims : (s.pc a).claims = some i := by rw [hpc]; rfl
  have hclears := hs.clears a i ha hclaims
  rw [hpc] at hclears
  refine hs.quiet ha rfl (fun _ => by rw [hpc]; rfl) ?_ ?_
  · intro j hj
    have hslot : (s.pc a).slot = some j := by rw [hpc]; exact hj
    have howned := hs.owned a j ha hslot
    rw [hpc] at howned
    exact ⟨hslot, howned.congr rfl rfl (nomatch ·) fun _ => trivial⟩
  · intro j hj
    obtain rfl : i = j := Option.some.inj hj
    exact ⟨hs.claim ha hclaims, rfl, fun hmode => (hs.word i (hclears hmode)).1⟩

theorem Inv.clearGuard {guard : Option Octile} (hpc : s.pc a = .clearGuard i guard mode p) :
    Inv ((s.apply a (.word i ((s.slots i).withGuard 0 false))).goto a
      (.clearPending i guard mode p)) := by
  have hclears := hs.clears_of ha hpc rfl
  refine hs.writeClaim ha hpc rfl (fun hne => ⟨rfl, (hs.word i hne).2⟩) ?_ ?_
  · intro j hj
    obtain ⟨rfl, rfl⟩ := Purpose.eq_of_slot hj
    have howned := hs.owned_of ha hpc rfl
    exact ⟨rfl, howned.rewrite rfl rfl ⟨rfl, rfl⟩ rfl howned.pending rfl⟩
  · intro j hj
    exact ⟨(Option.some.inj hj).symm, rfl, hclears.2⟩

/-- A step that returns from `clear_slot_guard`, or goes on to release the count. -/
theorem Inv.clearPendingStep {guard : Option Octile} (hpc : s.pc a = .clearPending i guard mode p)
    (h : s.clearPendingStep i mode p guard = (e, c)) : Inv ((s.apply a e).goto a c) := by
  have hclears := hs.clears_of ha hpc rfl
  obtain ⟨hguard, hunpaired⟩ := hclears
  have hw : WordOk (s.slots i).clearPending := (hs.word i).clearPending
  -- whatever comes next, it is about the same slot and starts with nothing left in it
  have hgo : ∀ d : Pc n, d.slot = p.slot i → d.pending = none → d.marked = false →
      d.claims = some i →
      d.Clears a.process (s.slots i).clearPending (s.owner i) →
      Inv ((s.apply a (.word i (s.slots i).clearPending)).goto a d) := by
    intro d hslot hpending hmarked hclaims hd
    refine hs.writeClaim ha hpc rfl hw ?_ ?_
    · intro j hj
      obtain ⟨rfl, rfl⟩ := Purpose.eq_of_slot (hslot.symm.trans hj)
      have howned := hs.owned_of ha hpc rfl
      exact ⟨rfl, howned.rewrite rfl rfl ⟨hpending, hmarked⟩ rfl rfl rfl⟩
    · intro j hj
      exact ⟨Option.mem_unique hj hclaims, hd⟩
  obtain ⟨hslot, hclaims, hpending, hmarked⟩ := p.next_views i
  have hnext := hgo (p.next i) hslot hpending hmarked hclaims (Purpose.clears_next hguard rfl)
  cases guard with
  | none =>
    cases h
    exact hnext
  | some o =>
    cases mode with
    | none =>
      cases h
      exact hnext
    | paired =>
      cases h
      exact hgo (.clearCount i o p) rfl rfl rfl rfl ⟨hguard, rfl⟩
    | unpaired => cases hunpaired rfl

theorem Inv.clearCount (hpc : s.pc a = .clearCount i o p) :
    Inv ((s.apply a (.sub o)).goto a (p.next i)) := by
  have hclaims₀ : (s.pc a).claims = some i := by rw [hpc]; rfl
  have hclears := hs.clears a i ha hclaims₀
  rw [hpc] at hclears
  obtain ⟨hslot, hclaims, hpending, hmarked⟩ := p.next_views i
  refine hs.quiet ha rfl (fun _ => by rw [hpc]; rfl) ?_ ?_
  · intro j hj
    obtain ⟨rfl, rfl⟩ := Purpose.eq_of_slot (hslot.symm.trans hj)
    have hslot₀ : (s.pc a).slot = some j := by rw [hpc]; rfl
    have howned := hs.owned a j ha hslot₀
    rw [hpc] at howned
    exact ⟨hslot₀, howned.congr rfl rfl (nomatch ·) fun _ => trivial⟩
  · intro j hj
    obtain rfl : j = i := Option.mem_unique hj hclaims
    exact ⟨hs.claim ha hclaims₀, Purpose.clears_next hclears.1 hclears.2⟩

/-! ### The count of guards -/

/-- A count that an agent makes is not that of a slot it clears. -/
theorem Inv.query (hpc : s.pc a = .count q k sum ∨ ∃ i, s.pc a = .probe q i sum) : q.claims = none := by
  by_contra hne
  obtain ⟨i, hi⟩ := Option.ne_none_iff_exists'.1 hne
  obtain hpc | ⟨j, hpc⟩ := hpc
  all_goals
    have hclears := hs.clears a i ha (by rw [hpc]; exact hi)
    rw [hpc] at hclears
    exact hne hclears

/-- A count goes on. -/
theorem Inv.counting (hpc : s.pc a = c₀) (hq : q.claims = none)
    (h₀ : (∃ k sum, c₀ = .count q k sum) ∨ ∃ i sum, c₀ = .probe q i sum)
    (h : (∃ k sum, c = .count q k sum) ∨ ∃ i sum, c = .probe q i sum) :
    Inv ((s.apply a .skip).goto a c) := by
  have hviews : ∀ d : Pc n, (∃ k sum, d = .count q k sum) ∨ (∃ i sum, d = .probe q i sum) →
      d.slot = q.slot ∧ d.claims = q.claims ∧ d.inside = q.inside ∧ d.pending = none ∧
        d.marked = false ∧ d.unowned = false := by
    rintro d (⟨k, sum, rfl⟩ | ⟨i, sum, rfl⟩) <;> exact ⟨rfl, rfl, rfl, rfl, rfl, rfl⟩
  subst hpc
  obtain ⟨hslot₀, -, hin₀, hpending₀, hmarked₀, hunowned₀⟩ := hviews _ h₀
  obtain ⟨hslot, hclaims, hin, hpending, hmarked, -⟩ := hviews _ h
  refine hs.quiet ha rfl (fun hc => by rw [hin₀, ← hin]; exact hc) ?_ ?_
  · intro j hj
    have hj₀ : (s.pc a).slot = some j := by rw [hslot₀, ← hslot]; exact hj
    refine ⟨hj₀, (hs.owned a j ha hj₀).congr ?_ ?_ ?_ ?_⟩
    · rw [hpending, hpending₀]
    · rw [hmarked, hmarked₀]
    · intro hunowned
      simp [hunowned₀] at hunowned
    · intro _
      exact Pc.guardOk_of_clear hpending hmarked
  · intro j hj
    simp [hclaims, hq] at hj

/-- A count is over. -/
theorem Inv.answered (hpc : s.pc a = .count q k sum) :
    Inv ((s.apply a .skip).goto a (q.answer sum)) := by
  have hq := hs.query ha (.inl hpc)
  cases q
  all_goals simp only [Query.answer]
  case blocking o published =>
    split_ifs
    all_goals exact hs.still ha hpc rfl (nomatch ·) rfl rfl
  case confirmed o access published | leaked o access published | last o access confirm published =>
    split_ifs
    all_goals exact hs.still ha hpc rfl (fun _ => rfl) rfl rfl
  case rollback i o | rollbackAgain i o access =>
    split_ifs
    all_goals exact hs.clear ha hpc rfl (fun _ => rfl) rfl rfl ⟨rfl, rfl, rfl⟩ ⟨rfl, rfl⟩ rfl
  case unpaired i o access p => cases hq

theorem Inv.countStep (hpc : s.pc a = .count q k sum) (h : s.countStep q i sum = (e, c)) :
    Inv ((s.apply a e).goto a c) := by
  have hq := hs.query ha (.inl hpc)
  simp only [State.countStep] at h
  split_ifs at h
  all_goals
    cases h
    first
    | exact hs.counting ha hpc hq (.inl ⟨_, _, rfl⟩) (.inl ⟨_, _, rfl⟩)
    | exact hs.counting ha hpc hq (.inl ⟨_, _, rfl⟩) (.inr ⟨_, _, rfl⟩)

/-! ### The constructor and the destructor -/

omit ha in
/-- An INACTIVE slot has no live reader. -/
theorem Inv.vacant (hi : (s.slots i).status = .inactive) : s.Alone a i :=
  fun b hb hbi => absurd hi (hs.owned b i hb hbi).status

/-- An agent with the lock starts to clear a slot without a live reader. -/
theorem Inv.startClear (hpc : s.pc a = c₀) (hin : c₀.inside = true) (halone : s.Alone a i)
    (hslot : c.slot = none) (hclaims : c.claims = some i)
    (hclears : c.Clears a.process (s.slots i) (s.owner i)) : Inv ((s.apply a .skip).goto a c) := by
  subst hpc
  refine hs.quiet ha rfl (fun _ => hin) ?_ ?_
  · intro j hj
    simp [hslot] at hj
  · intro j hj
    obtain rfl : j = i := Option.mem_unique hj hclaims
    exact ⟨halone, hclears⟩

theorem Inv.publish (hpc : s.pc a = .publish i) :
    Inv ((s.apply a (.owner i (some a.process))).goto a (.admitLoad i)) := by
  have hclears := hs.clears_of ha hpc rfl
  refine hs.setOwner ha hpc rfl (fun j => (nomatch ·)) ?_
  intro j hj
  exact ⟨(Option.some.inj hj).symm, hclears.1, hclears.2, rfl⟩

theorem Inv.admitLoad (hpc : s.pc a = .admitLoad i) :
    Inv ((s.apply a .skip).goto a (.admitStore i (s.slots i))) := by
  have hclaims : (s.pc a).claims = some i := by rw [hpc]; rfl
  have hclears := hs.clears a i ha hclaims
  rw [hpc] at hclears
  exact hs.startClear ha hpc rfl (hs.claim ha hclaims) rfl rfl hclears

/-- The slot becomes ACTIVE and is the reader's. -/
theorem Inv.admitStore (hpc : s.pc a = .admitStore i w) :
    Inv ((s.apply a (.word i (w.clearFlags.withStatus .active))).goto a
      (.leave (.owns i .none))) := by
  have hclears := hs.clears_of ha hpc rfl
  obtain ⟨-, hpending, howner⟩ := hclears
  refine hs.writeClaim ha hpc rfl (wordOk_of_active rfl) ?_ (fun j => (nomatch ·))
  intro j hj
  obtain rfl : i = j := Option.some.inj hj
  exact ⟨rfl, ⟨(nomatch ·), .inl howner, hpending, rfl, trivial⟩⟩

theorem Inv.retireStart (hpc : s.pc a = .retire i) :
    Inv ((s.apply a .skip).goto a (.clear i (releaseMode (s.slots i)) .retire)) := by
  refine hs.keep ha hpc rfl (fun _ => rfl) rfl rfl rfl rfl (nomatch ·) (fun _ _ _ => trivial) ?_
  intro j hj
  refine ⟨(Option.some.inj hj).symm, fun hmode hactive => ?_⟩
  rw [releaseMode, if_pos hactive] at hmode
  cases hmode

theorem Inv.retireOwner (hpc : s.pc a = .retireOwner i) :
    Inv ((s.apply a (.owner i none)).goto a (.retireFlags i)) := by
  have hclears := hs.clears_of ha hpc rfl
  have howned := hs.owned_of ha hpc rfl
  refine hs.setOwner ha hpc rfl ?_ ?_
  · intro j hj
    exact ⟨(Option.some.inj hj).symm,
      ⟨howned.status, .inr rfl, howned.pending, howned.copying, trivial⟩⟩
  · intro j hj
    exact ⟨(Option.some.inj hj).symm, hclears⟩

theorem Inv.retireFlags (hpc : s.pc a = .retireFlags i) :
    Inv ((s.apply a (.word i (s.slots i).clearFlags)).goto a (.retireStatus i)) := by
  have hclears := hs.clears_of ha hpc rfl
  have howned := hs.owned_of ha hpc rfl
  refine hs.writeClaim ha hpc rfl (hs.word i) ?_ ?_
  · intro j hj
    exact ⟨(Option.some.inj hj).symm, ⟨howned.status, .inr rfl, howned.pending, rfl, trivial⟩⟩
  · intro j hj
    exact ⟨(Option.some.inj hj).symm, hclears⟩

/-- A slot that guards nothing may become INACTIVE. -/
theorem Inv.deactivate (hpc : s.pc a = c₀) (hclaims₀ : c₀.claims = some i)
    (hempty : (s.slots i).guard = none ∧ (s.slots i).pending = none) (hslot : c.slot = none)
    (hclaims : ∀ j, c.claims = some j → j = i ∧ c.Clears a.process ((s.slots i).withStatus .inactive)
      (s.owner i)) : Inv ((s.apply a (.word i ((s.slots i).withStatus .inactive))).goto a c) := by
  refine hs.writeClaim ha hpc hclaims₀ (fun _ => hempty) ?_ hclaims
  intro j hj
  simp [hslot] at hj

/-! ### Scavenging -/

/-- The owner of a slot with a live reader is not dead. -/
theorem Inv.owner_live (hin : (s.pc a).inside = true) (hexited : s.ownerExited i = true) :
    s.Alone a i := by
  intro b hb hbi
  obtain howner | hunowned := (hs.owned b i hb hbi).owner
  · simp only [State.ownerExited, howner, Option.any_some, decide_eq_true_eq] at hexited
    exact absurd hexited hb
  · refine hs.excl ha hin hb ?_
    cases hpc : s.pc b <;> simp_all [Pc.unowned, Pc.inside]

theorem Inv.scavengeStep {k : ℕ} {c₀ : Caller} (hpc : s.pc a = .scavenge k c₀)
    (h : s.scavengeStep ch i c₀ = some (e, c)) : Inv ((s.apply a e).goto a c) := by
  simp only [State.scavengeStep] at h
  split_ifs at h with hinactive _ _ hexited <;> cases h
  any_goals exact hs.still ha hpc rfl (fun _ => rfl) rfl rfl
  · refine hs.startClear ha hpc rfl (hs.vacant hinactive) rfl rfl ?_
    intro _ hactive
    simp [hinactive] at hactive
  · rw [Bool.not_eq_false] at hexited
    exact hs.startClear ha hpc rfl (hs.owner_live ha (by rw [hpc]; rfl) hexited) rfl rfl trivial

theorem Inv.orphan {d : Caller} (hpc : s.pc a = .orphan i d) :
    Inv ((s.apply a .skip).goto a (.clear i (releaseMode (s.slots i)) (.dead d))) := by
  refine hs.startClear ha hpc rfl (hs.claim ha (by rw [hpc]; rfl)) rfl rfl ?_
  intro hmode hactive
  rw [releaseMode, if_pos hactive] at hmode
  cases hmode

/-! ### The writer -/

theorem Inv.eligibleStep {published : Bool} (hpc : s.pc a = .eligible o i published)
    (h : s.eligibleStep ch o i published = (e, c)) : Inv ((s.apply a e).goto a c) := by
  simp only [State.eligibleStep] at h
  split_ifs at h
  all_goals
    cases h
    exact hs.still ha hpc rfl (fun _ => rfl) rfl rfl

theorem Inv.evictStep {published : Bool} (hpc : s.pc a = .evict o i published)
    (h : s.evictStep ch o i published = (e, c)) : Inv ((s.apply a e).goto a c) := by
  simp only [State.evictStep] at h
  split_ifs at h with hok
  · cases h
    simp only [Bool.and_eq_true, Bool.not_eq_true', Option.isNone_iff_eq_none] at hok
    obtain ⟨⟨-, hcopying⟩, hpending⟩ := hok
    exact hs.writeSpare ha hpc rfl rfl rfl (fun _ => ⟨rfl, hpending⟩)
      (.evicted hpending hcopying)
  · cases h
    exact hs.still ha hpc rfl (fun _ => rfl) rfl rfl

theorem Inv.returned (hpc : s.pc a = c₀) (published : Bool) :
    Inv ((s.apply a .skip).goto a (.returned published)) := by
  obtain ⟨hslot, hclaims, hin⟩ := Pc.returned_views published
  exact hs.still ha hpc rfl (fun h => by simp [hin] at h) hslot hclaims

/-! ### All steps -/

theorem Inv.advance (h : s.next a ch = some (e, c)) : Inv ((s.apply a e).goto a c) := by
  unfold State.next at h
  cases hpc : s.pc a
  all_goals simp only [hpc] at h
  -- where the step does not depend on the memory, it is known now
  all_goals try cases h
  case wait x =>
    split_ifs at h with hfree
    cases h
    exact hs.enter ha hpc hfree
  case leave x => exact hs.exit ha hpc
  case acquire i o allowEvicted => exact hs.acquireStep ha hpc (Option.some.inj h)
  case acquirePending i o previous =>
    exact hs.keep ha hpc rfl (nomatch ·) rfl rfl rfl rfl (nomatch ·) (fun _ _ hg => hg)
      (fun _ => (nomatch ·))
  case acquireAdded i o previous => exact hs.attach ha hpc
  case acquireMoved i o p | released i o =>
    exact hs.keep ha hpc rfl (nomatch ·) rfl rfl rfl rfl (nomatch ·) (fun _ _ hg => hg.1)
      (fun _ => (nomatch ·))
  case release i => exact hs.releaseStep ha hpc (Option.some.inj h)
  case settle i o r => exact hs.settle ha hpc
  case copy i => exact hs.copyStep ha hpc (Option.some.inj h)
  case copying i o => exact hs.copied ha hpc
  case done i =>
    split_ifs at h with hguarded
    · cases h
      simp only [Bool.and_eq_true, decide_eq_true_eq] at hguarded
      exact hs.doneStep ha hpc hguarded.1
    · cases h
      exact hs.clear ha hpc rfl (fun _ => rfl) rfl rfl ⟨rfl, rfl, rfl⟩ ⟨rfl, rfl⟩ rfl
  case doneCount i o =>
    exact hs.keep ha hpc rfl (fun _ => rfl) rfl rfl rfl rfl (nomatch ·) (fun _ _ hg => hg)
      (fun _ => (nomatch ·))
  case donePending i o => exact hs.donePending ha hpc
  case doneRequest i => exact hs.doneRequest ha hpc
  case clear i mode p => exact hs.clearLoad ha hpc
  case clearGuard i guard mode p => exact hs.clearGuard ha hpc
  case clearPending i guard mode p => exact hs.clearPendingStep ha hpc (Option.some.inj h)
  case clearCount i o p => exact hs.clearCount ha hpc
  case unpaired i o p | unpairedSwap i o access p =>
    have hclears := hs.clears_of ha hpc rfl
    exact hclears.elim
  case count q k sum =>
    split_ifs at h
    · exact hs.countStep ha hpc (Option.some.inj h)
    · cases h
      exact hs.answered ha hpc
  case probe q k sum =>
    have hq := hs.query (k := 0) ha (.inr ⟨k, hpc⟩)
    split_ifs at h
    all_goals
      cases h
      exact hs.counting ha hpc hq (.inr ⟨_, _, rfl⟩) (.inl ⟨_, _, rfl⟩)
  case admission =>
    split_ifs at h with hlt hactive <;> cases h
    any_goals exact hs.still ha hpc rfl (fun _ => rfl) rfl rfl
    · have hinactive := not_not.1 hactive
      refine hs.startClear ha hpc rfl (hs.vacant hinactive) rfl rfl ?_
      intro _ h'
      simp [hinactive] at h'
  case publish i => exact hs.publish ha hpc
  case admitLoad i => exact hs.admitLoad ha hpc
  case admitStore i w => exact hs.admitStore ha hpc
  case retire i =>
    split_ifs at h
    · cases h
      exact hs.clear ha hpc rfl (fun _ => rfl) rfl rfl ⟨rfl, rfl, rfl⟩ ⟨rfl, rfl⟩ rfl
    · cases h
      exact hs.retireStart ha hpc
  case retireOwner i => exact hs.retireOwner ha hpc
  case retireFlags i => exact hs.retireFlags ha hpc
  case retireStatus i =>
    have hclears := hs.clears_of ha hpc rfl
    exact hs.deactivate ha hpc rfl hclears rfl (fun _ => (nomatch ·))
  case scavenge k d =>
    split_ifs at h
    · exact hs.scavengeStep ha hpc h
    · cases h
      exact hs.still ha hpc rfl (fun _ => rfl) rfl rfl
  case orphan i d => exact hs.orphan ha hpc
  case orphanStatus i d =>
    have hclears := hs.clears_of ha hpc rfl
    exact hs.deactivate ha hpc rfl hclears rfl
      (fun j hj => ⟨(Option.some.inj hj).symm, trivial⟩)
  case orphanFlags i d =>
    exact hs.writeClaim ha hpc rfl (hs.word i) (fun _ => (nomatch ·))
      (fun j hj => ⟨(Option.some.inj hj).symm, trivial⟩)
  case orphanOwner i d => exact hs.setOwner ha hpc rfl (fun _ => (nomatch ·)) (fun _ => (nomatch ·))
  case rollback i o | rollbackAgain i o | rollbackSwap i o access =>
    split_ifs at h
    all_goals
      cases h
      exact hs.clear ha hpc rfl (fun _ => rfl) rfl rfl ⟨rfl, rfl, rfl⟩ ⟨rfl, rfl⟩ rfl
  case closing => exact hs.still ha hpc rfl (nomatch ·) rfl rfl
  case cancel k d =>
    split_ifs at h
    · cases h
      exact hs.writeSpare ha hpc rfl rfl rfl (hs.word _) (.request _ false)
    · cases h
      exact hs.still ha hpc rfl (fun _ => rfl) rfl rfl
  case check o | reclaim o published =>
    split_ifs at h
    all_goals
      cases h
      exact hs.still ha hpc rfl (nomatch ·) rfl rfl
  case blocked o published | recheck o published =>
    split_ifs at h
    · cases h
      exact hs.returned ha hpc published
    · cases h
      exact hs.still ha hpc rfl (nomatch ·) rfl rfl
  case eligible o i published => exact hs.eligibleStep ha hpc (Option.some.inj h)
  case unrequest o i published =>
    exact hs.writeSpare ha hpc rfl rfl rfl (hs.word i) (.request _ false)
  case request o i published => exact hs.writeSpare ha hpc rfl rfl rfl (hs.word i) (.request _ true)
  case evict o i published => exact hs.evictStep ha hpc (Option.some.inj h)
  -- the rest of the writer's loop and of its pass only reads, or changes the counts
  all_goals
    try split_ifs at h <;> cases h
    all_goals exact hs.still ha hpc rfl (fun _ => rfl) rfl rfl

end

/-- Where a call of the reader of slot `i` starts. -/
inductive Starts (i : Fin n) : Pc n → Prop
  | retire : Starts i (.wait (.retire i))
  | acquire (o : Octile) (allowEvicted : Bool) : Starts i (.acquire i o allowEvicted)
  | release : Starts i (.release i)
  | copy : Starts i (.copy i)
  | done : Starts i (.wait (.done i))
  | rollback (o : Octile) : Starts i (.wait (.rollback i o))

/-- What a call can be. -/
inductive Calls (s : State n) (a : Agent) : Effect n → Pc n → Prop
  | construct : s.pc a = .idle → Calls s a .skip (.wait .admission)
  | scavengeOrphans : s.pc a = .idle → Calls s a .skip (.wait (.scavenge .alone))
  | reader {i : Fin n} {r : Outcome} {c : Pc n} : s.pc a = .owns i r → Starts i c → Calls s a .skip c
  | openWriter : s.pc a = .idle → s.writer.all (fun b => b.process ∈ s.exited) = true →
      Calls s a .assume (.wait (.cancel .opened))
  | closeWriter {ok : Bool} : s.pc a = .writer ok → Calls s a .skip (.wait (.cancel .closed))
  | advanceWriter {ok : Bool} (o : Octile) : s.pc a = .writer ok → Calls s a .skip (.check o)

theorem calls_ofReader {f : Fin n → Pc n} (hf : ∀ i, Starts i (f i))
    (h : State.call.ofReader s a f = some (e, c)) : Calls s a e c := by
  unfold State.call.ofReader at h
  split at h
  next i r hpc =>
    cases h
    exact .reader hpc (hf i)
  next => cases h

theorem call_cases {d : Call} (h : s.call a d = some (e, c)) : Calls s a e c := by
  cases d with
  | construct =>
    obtain ⟨hpc, ⟨⟩⟩ := Machine.of_guard h
    exact .construct hpc
  | destroy => exact calls_ofReader (fun _ => .retire) h
  | acquireGuard o allowEvicted => exact calls_ofReader (fun _ => .acquire o allowEvicted) h
  | releaseGuard => exact calls_ofReader (fun _ => .release) h
  | withCopyingMark => exact calls_ofReader (fun _ => .copy) h
  | doneReading => exact calls_ofReader (fun _ => .done) h
  | tryRollback o => exact calls_ofReader (fun _ => .rollback o) h
  | scavengeOrphans =>
    obtain ⟨hpc, ⟨⟩⟩ := Machine.of_guard h
    exact .scavengeOrphans hpc
  | openWriter =>
    obtain ⟨hfree, ⟨⟩⟩ := Machine.of_guard h
    exact .openWriter hfree.1 hfree.2
  | closeWriter =>
    simp only [State.call, State.call.ofWriter] at h
    split at h
    next ok hpc =>
      cases h
      exact .closeWriter hpc
    next => cases h
  | advanceWriter o =>
    simp only [State.call, State.call.ofWriter] at h
    split at h
    next ok hpc =>
      cases h
      exact .advanceWriter o hpc
    next => cases h

theorem Starts.views (h : Starts i c) : c.slot = some i ∧ c.inside = false ∧
    (c.pending = none ∧ c.marked = false) ∧ c.claims = none := by
  cases h <;> exact ⟨rfl, rfl, ⟨rfl, rfl⟩, rfl⟩

theorem Inv.call (hs : Inv s) (ha : s.Live a) {d : Call} (h : s.call a d = some (e, c)) :
    Inv ((s.apply a e).goto a c) := by
  cases call_cases h with
  | reader hpc hstart =>
    obtain ⟨hslot, hin, hbits, hclaims⟩ := hstart.views
    exact hs.clear ha hpc rfl (fun hc => by simp [hin] at hc) rfl hslot ⟨rfl, rfl, rfl⟩ hbits hclaims
  | construct hpc | scavengeOrphans hpc | openWriter hpc _ | closeWriter hpc
  | advanceWriter o hpc =>
      exact hs.still ha hpc rfl (nomatch ·) rfl rfl

theorem Inv.die (hs : Inv s) (p : Process) : Inv { s with exited := insert p s.exited } := by
  have hlive : ∀ b, State.Live { s with exited := insert p s.exited } b → s.Live b := by
    intro b hb hmem
    exact hb (Finset.mem_insert_of_mem hmem)
  constructor
  · intro b hb
    exact hs.lock b (hlive b hb)
  · intro b d i hb hd
    exact hs.unique b d i (hlive b hb) (hlive d hd)
  · intro b i hb
    exact hs.owned b i (hlive b hb)
  · exact hs.word
  · intro b i hb hbi d hd
    exact hs.alone b i (hlive b hb) hbi d (hlive d hd)
  · intro b i hb
    exact hs.clears b i (hlive b hb)

end

/-- What a step can be. -/
inductive StepOf (s : State n) : Action → State n → Prop
  | call {a : Agent} {d : Call} {e : Effect n} {c : Pc n} : s.Live a → s.call a d = some (e, c) →
      StepOf s (.call a d) ((s.apply a e).goto a c)
  | advance {a : Agent} {ch : Choice} {e : Effect n} {c : Pc n} : s.Live a →
      s.next a ch = some (e, c) → StepOf s (.advance a ch) ((s.apply a e).goto a c)
  | exit (p : Process) : StepOf s (.exit p) { s with exited := insert p s.exited }

theorem step_cases {s t : State n} {act : Action} (h : (machine n).step s act = some t) :
    StepOf s act t := by
  simp only [machine] at h
  cases act with
  | call a d =>
    simp only [State.step] at h
    split_ifs at h with ha
    obtain ⟨⟨e, c⟩, hcall, rfl⟩ := Option.map_eq_some_iff.1 h
    exact .call ha hcall
  | advance a ch =>
    simp only [State.step] at h
    split_ifs at h with ha
    obtain ⟨⟨e, c⟩, hnext, rfl⟩ := Option.map_eq_some_iff.1 h
    exact .advance ha hnext
  | exit p =>
    cases h
    exact .exit p

theorem Inv.step {s t : State n} {act : Action} (hs : Inv s) (h : (machine n).step s act = some t) :
    Inv t := by
  cases step_cases h with
  | call ha hcall => exact hs.call ha hcall
  | advance ha hnext => exact hs.advance ha hnext
  | exit p => exact hs.die p

/-- The invariant holds in every reachable state. -/
theorem reachable_inv {s : State n} (h : (machine n).Reachable s) : Inv s :=
  h.invariant (fun _ h0 => h0 ▸ inv_initial) fun _ _ _ hs hstep => hs.step hstep

end Sintra.Ring.Guards
