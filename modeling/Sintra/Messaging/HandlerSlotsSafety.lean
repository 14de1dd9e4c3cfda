import Sintra.Messaging.HandlerRegistry

/-!
# Quiescence of handlers

The mutex of a slot is held by the thread that is between its lock and its unlock, so that at most one
invocation of a slot is counted, and a thread that runs the handler is counted. A deactivator clears
`active` before it reads the counter, and a dispatch counts its invocation before it reads `active` for
the last time: an invocation that the deactivator has not seen finds the flag cleared.
-/

set_option linter.unusedSectionVars false

namespace Sintra.Messaging.Handlers

open Function Updates Machine Option

/-! ### The slots -/

namespace Stage

theorem held_of_current {p : Stage} {x : Slot} (h : p.currentHandlerSlotState = some x) :
    p.held = some x := by
  cases p with
  | entered | running | leaving => exact h
  | _ => cases h

/-- In the code of the user, the current slot is the one whose handler runs. -/
theorem running_of_current {p : Stage} {x : Slot} (huser : p.user = true)
    (h : p.currentHandlerSlotState = some x) : ∃ todo, p = .running x todo := by
  cases p with
  | running y todo =>
    cases h
    exact ⟨todo, rfl⟩
  | idle => cases h
  | _ => cases huser

theorem mem_slots_of_held {p : Stage} {x : Slot} (h : p.held = some x) : x ∈ p.slots := by
  cases p with
  | idle | next | locking => cases h
  | _ =>
    cases h
    exact List.mem_cons_self

end Stage

section

variable {τ : Type*}

/-- The mutex and the counter of a slot. -/
structure SlotOk (stage : τ → Stage) (slot : SlotState τ) (x : Slot) : Prop where
  holder : ∀ th, slot.invocationMutex = some th ↔ (stage th).held = some x
  free : slot.invocationMutex = none → slot.invocations = 0
  counted : ∀ th, slot.invocationMutex = some th →
    slot.invocations = if (stage th).currentHandlerSlotState = some x then 1 else 0

variable {stage : τ → Stage} {slot slot' : SlotState τ} {x y : Slot} {th : τ} {q : Stage}

theorem SlotOk.congr {stage' : τ → Stage} (h : SlotOk stage slot x)
    (hmutex : slot'.invocationMutex = slot.invocationMutex)
    (hinvocations : slot'.invocations = slot.invocations)
    (hheld : ∀ th, (stage' th).held = some x ↔ (stage th).held = some x)
    (hcurrent : ∀ th, (stage' th).currentHandlerSlotState = some x ↔
      (stage th).currentHandlerSlotState = some x) : SlotOk stage' slot' x := by
  refine ⟨fun th => ?_, fun hfree => ?_, fun th hth => ?_⟩
  · rw [hmutex, hheld]
    exact h.holder th
  · rw [hinvocations]
    exact h.free (hmutex ▸ hfree)
  · rw [hinvocations, h.counted th (hmutex ▸ hth)]
    exact if_congr (hcurrent th).symm rfl rfl

variable [DecidableEq τ]

/-- A thread goes on, and is not seen to by the slot. -/
theorem SlotOk.move (h : SlotOk stage slot x)
    (hheld : q.held = some x ↔ (stage th).held = some x)
    (hcurrent : q.currentHandlerSlotState = some x ↔ (stage th).currentHandlerSlotState = some x) :
    SlotOk (update stage th q) slot x := by
  refine h.congr rfl rfl ?_ ?_
  · exact forall_update (fun th' (p : Stage) => p.held = some x ↔ (stage th').held = some x) rfl
      (fun _ => hheld) fun _ => .rfl
  · exact forall_update (fun th' (p : Stage) => p.currentHandlerSlotState = some x ↔
      (stage th').currentHandlerSlotState = some x) rfl (fun _ => hcurrent) fun _ => .rfl

/-- A step of a thread with another slot. -/
theorem SlotOk.other (h : SlotOk stage slot y) (hbefore : (stage th).held ≠ some y)
    (hafter : q.held ≠ some y) : SlotOk (update stage th q) slot y := by
  refine h.move (iff_of_false hafter hbefore) (iff_of_false (fun hc => ?_) fun hc => ?_)
  · exact hafter (Stage.held_of_current hc)
  · exact hbefore (Stage.held_of_current hc)

theorem SlotOk.lock (h : SlotOk stage slot x) (hfree : slot.invocationMutex = none)
    (hheld : q.held = some x) (hcurrent : q.currentHandlerSlotState = none) :
    SlotOk (update stage th q) { slot with invocationMutex := some th } x := by
  have hothers : ∀ th', (stage th').held ≠ some x := by
    intro th' hth'
    cases hfree.symm.trans ((h.holder th').2 hth')
  refine ⟨fun th' => ?_, (nomatch ·), fun th' hth' => ?_⟩
  · obtain rfl | hth := eq_or_ne th' th
    · rw [update_self]
      exact iff_of_true rfl hheld
    · rw [update_of_ne hth]
      exact iff_of_false (fun heq => hth (some.inj heq).symm) (hothers th')
  · obtain rfl := some.inj hth'
    rw [update_self, hcurrent, if_neg nofun]
    exact h.free hfree

/-- The thread that holds the mutex counts its invocation, or takes it back. -/
theorem SlotOk.count (h : SlotOk stage slot x) (hth : (stage th).held = some x)
    (hheld : q.held = some x) {k : ℕ} (hk : k = if q.currentHandlerSlotState = some x then 1 else 0) :
    SlotOk (update stage th q) { slot with invocations := k } x := by
  have hmutex := (h.holder th).2 hth
  refine ⟨fun th' => ?_, fun hfree => ?_, fun th' hth' => ?_⟩
  · obtain rfl | hne := eq_or_ne th' th
    · rw [update_self]
      exact iff_of_true hmutex hheld
    · rw [update_of_ne hne]
      exact h.holder th'
  · cases hmutex.symm.trans hfree
  · obtain rfl := mem_unique hmutex hth'
    rw [update_self]
    exact hk

theorem SlotOk.unlock (h : SlotOk stage slot x) (hth : (stage th).held = some x)
    (hcurrent : (stage th).currentHandlerSlotState = none) (hheld : q.held = none) :
    SlotOk (update stage th q) { slot with invocationMutex := none } x := by
  have hmutex := (h.holder th).2 hth
  refine ⟨fun th' => ?_, fun _ => ?_, fun th' hth' => (nomatch hth')⟩
  · obtain rfl | hne := eq_or_ne th' th
    · rw [update_self, hheld]
      exact iff_of_false nofun nofun
    · rw [update_of_ne hne]
      refine iff_of_false nofun fun hth' => hne ?_
      exact some.inj (((h.holder th').2 hth').symm.trans hmutex)
  · rw [show _ = _ from h.counted th hmutex, hcurrent, if_neg nofun]

/-- The flags of a slot change: `active` is only cleared, and the claim only taken. -/
structure Flagged (slot slot' : SlotState τ) : Prop where
  mutex : slot'.invocationMutex = slot.invocationMutex
  invocations : slot'.invocations = slot.invocations
  active : slot.active = false → slot'.active = false
  claimed : slot.deactivationClaimed = true → slot'.deactivationClaimed = true

theorem Flagged.refl (slot : SlotState τ) : Flagged slot slot := ⟨rfl, rfl, id, id⟩

theorem Flagged.update {slots : Slot → SlotState τ} (h : Flagged (slots x) slot) :
    ∀ y, Flagged (slots y) (update slots x slot y) :=
  forall_update (fun y slot => Flagged (slots y) slot) rfl (fun _ => h) fun _ => .refl _

end

/-! ### The invariant -/

section

variable {τ : Type*} [DecidableEq τ] {s t : State τ} {th : τ} {x : Slot}

/-- The slot of a deactivator that is being called. -/
def Call.slot? : Call → Option Slot
  | .slot x | .stored x | .removing x | .waiting x => some x
  | _ => Option.none

/-- The deactivator has cleared `active`. -/
def Call.cleared? : Call → Option Slot
  | .stored x | .removing x | .waiting x => some x
  | _ => Option.none

/-- One deactivator claims the deactivation, and erases the slot. -/
structure Claims (claimed : Bool) (removals : ℕ) (call : τ → Call) (x : Slot) : Prop where
  unclaimed : claimed = false → removals = 0 ∧ ∀ th, call th ≠ .removing x
  claimed : claimed = true →
    (removals = 0 ∧ ∃ th, ∀ th', call th' = .removing x ↔ th' = th) ∨
      (removals = 1 ∧ ∀ th, call th ≠ .removing x)

structure Inv (s : State τ) : Prop where
  slot : ∀ x, SlotOk s.stage (s.slots x) x
  registered : Registered s.registry
  claims : ∀ x, Claims (s.slots x).deactivationClaimed (s.registry.removals x) s.call x
  cleared : ∀ th x, (s.call th).cleared? = some x → (s.slots x).active = false
  waiting : ∀ th x, s.call th = .waiting x → (s.slots x).deactivationClaimed = true
  user : ∀ th, s.call th ≠ .none → (s.stage th).user = true
  known : ∀ th, ∀ x ∈ (s.stage th).slots, s.registry.registration x ≠ none
  called : ∀ th x, (s.call th).slot? = some x → s.registry.registration x ≠ none

theorem inv_init (h : (machine τ).init s) : Inv s := by
  obtain ⟨registry, slots, stage, call, all⟩ := s
  obtain ⟨rfl, hslots, hthreads⟩ := h
  obtain rfl : slots = fun _ => .initial := funext hslots
  obtain rfl : stage = fun _ => .idle := funext fun th => (hthreads th).1
  obtain rfl : call = fun _ => .none := funext fun th => (hthreads th).2.1
  constructor
  case slot => exact fun x => ⟨fun th => iff_of_false nofun nofun, fun _ => rfl, fun th => nofun⟩
  case registered =>
    exact ⟨⟨fun _ _ => ⟨rfl, fun _ _ => nofun⟩, nofun, nofun⟩, ⟨fun _ _ => ⟨rfl, fun _ => nofun⟩, nofun, nofun⟩,
      ⟨nofun, nofun, fun _ _ => rfl, fun _ _ => rfl, nofun, nofun, nofun⟩⟩
  case claims => exact fun x => ⟨fun _ => ⟨rfl, fun th => nofun⟩, nofun⟩
  case user => exact fun th hne => absurd rfl hne
  all_goals exact fun th => nofun

section

variable (hs : Inv s)

include hs

/-! ### Dispatch -/

variable {p : Stage}

theorem Inv.not_called (hstage : s.stage th = p) (huser : p.user = false) :
    s.call th = .none := by
  by_contra hne
  rw [← hstage, hs.user th hne] at huser
  cases huser

theorem Inv.known_of (hstage : s.stage th = p) :
    ∀ x ∈ p.slots, s.registry.registration x ≠ none := by
  rw [← hstage]
  exact hs.known th

/-- A thread goes on in its dispatch. -/
theorem Inv.setStage {q : Stage} {slots : Slot → SlotState τ}
    (hcall : s.call th = .none) (hslot : ∀ x, SlotOk (update s.stage th q) (slots x) x)
    (hactive : ∀ x, (slots x).active = (s.slots x).active)
    (hclaimed : ∀ x, (slots x).deactivationClaimed = (s.slots x).deactivationClaimed)
    (hknown : ∀ x ∈ q.slots, s.registry.registration x ≠ none) :
    Inv { s.setStage th q with slots := slots } := by
  refine ⟨hslot, hs.registered, fun x => ?_, fun th' x hx => ?_, fun th' x hx => ?_, ?_, ?_, hs.called⟩
  · show Claims (slots x).deactivationClaimed _ _ x
    rw [hclaimed]
    exact hs.claims x
  · exact (hactive x).trans (hs.cleared th' x hx)
  · exact (hclaimed x).trans (hs.waiting th' x hx)
  · exact forall_update (fun th' (p : Stage) => s.call th' ≠ .none → p.user = true) rfl
      (fun _ hne => absurd hcall hne) hs.user
  · exact forall_update (fun _ (p : Stage) => ∀ x ∈ p.slots, s.registry.registration x ≠ none) rfl
      (fun _ => hknown) hs.known

/-- No slot changes. -/
theorem Inv.setStage_same {q : Stage} (hstage : s.stage th = p) (hcall : s.call th = .none)
    (hheld : q.held = p.held) (hcurrent : q.currentHandlerSlotState = p.currentHandlerSlotState)
    (hknown : ∀ x ∈ q.slots, s.registry.registration x ≠ none) : Inv (s.setStage th q) := by
  subst hstage
  refine hs.setStage hcall (fun x => ?_) (fun _ => rfl) (fun _ => rfl) hknown
  exact (hs.slot x).move (by rw [hheld]) (by rw [hcurrent])

/-- One slot changes, and it is the only one that the thread may hold before or after. -/
theorem Inv.setStage_slot {q : Stage} {slot : SlotState τ} (hstage : s.stage th = p)
    (hcall : s.call th = .none) (hbefore : p.held = none ∨ p.held = some x)
    (hafter : q.held = none ∨ q.held = some x) (hslot : SlotOk (update s.stage th q) slot x)
    (hactive : slot.active = (s.slots x).active)
    (hclaimed : slot.deactivationClaimed = (s.slots x).deactivationClaimed)
    (hknown : ∀ x ∈ q.slots, s.registry.registration x ≠ none) :
    Inv ((s.setStage th q).setSlot x slot) := by
  subst hstage
  have hother : ∀ {p : Stage} {y}, (p.held = none ∨ p.held = some x) → y ≠ x → p.held ≠ some y := by
    rintro p y (hp | hp) hyx heq
    · cases hp.symm.trans heq
    · exact hyx (mem_unique heq hp)
  refine hs.setStage hcall ?_ ?_ ?_ hknown
  · refine (forall_update_iff s.slots fun y slot => SlotOk _ slot y).2 ⟨hslot, fun y hyx => ?_⟩
    exact (hs.slot y).other (hother hbefore hyx) (hother hafter hyx)
  · exact forall_update (fun y (slot : SlotState τ) => slot.active = (s.slots y).active) rfl
      (fun _ => hactive) fun _ => rfl
  · exact forall_update (fun y (slot : SlotState τ) =>
      slot.deactivationClaimed = (s.slots y).deactivationClaimed) rfl (fun _ => hclaimed) fun _ => rfl

theorem Inv.advance (h : s.advance th = some t) : Inv t := by
  unfold State.advance at h
  split at h
  case h_4 x todo hstage | h_6 x todo hstage =>
    cases h
    refine hs.setStage_same hstage (hs.not_called hstage rfl) ?_ ?_ fun y hy => hs.known_of hstage y ?_
    · split_ifs <;> rfl
    · split_ifs <;> rfl
    · split_ifs at hy <;> exact hy
  case h_5 x todo hstage | h_7 x todo hstage =>
    cases h
    have hheld : (s.stage th).held = some x := by rw [hstage]; rfl
    refine hs.setStage_slot hstage (hs.not_called hstage rfl) (.inr rfl) (.inr rfl)
      ((hs.slot x).count hheld rfl ?_) rfl rfl fun y hy => hs.known_of hstage y hy
    rw [(hs.slot x).counted th (((hs.slot x).holder th).2 hheld), hstage]
    simp [Stage.currentHandlerSlotState]
  next hstage =>
    cases h
    exact hs.setStage_same hstage (hs.not_called hstage rfl) rfl rfl nofun
  next x todo hstage =>
    cases h
    refine hs.setStage_same hstage (hs.not_called hstage rfl) ?_ ?_ fun y hy => hs.known_of hstage y ?_
    · split_ifs <;> rfl
    · split_ifs <;> rfl
    · split_ifs at hy
      · exact hy
      · exact List.mem_cons_of_mem _ hy
  next x todo hstage =>
    obtain ⟨hfree, rfl⟩ := of_guard h
    exact hs.setStage_slot hstage (hs.not_called hstage rfl) (.inl rfl) (.inr rfl)
      ((hs.slot x).lock hfree rfl rfl) rfl rfl fun y hy => hs.known_of hstage y hy
  next x todo hstage =>
    cases h
    refine hs.setStage_slot hstage (hs.not_called hstage rfl) (.inr rfl) (.inl rfl) ?_ rfl rfl
      fun y hy => hs.known_of hstage y (List.mem_cons_of_mem _ hy)
    exact (hs.slot x).unlock (by rw [hstage]; rfl) (by rw [hstage]; rfl) rfl
  next => cases h

theorem Inv.dispatch {typeId : TypeId} {scopeIds : List InstanceId} (hidle : s.stage th = .idle)
    (hcall : s.call th = .none) :
    Inv (s.setStage th (.next (scopeIds.flatMap (s.registry.handlers typeId)))) := by
  refine hs.setStage_same hidle hcall rfl rfl fun x hx hnone => ?_
  obtain ⟨sid, -, hin⟩ := List.mem_flatMap.1 hx
  exact (hs.registered.handlers.fresh x hnone).2 typeId sid hin

theorem Inv.finish {todo rest : List Slot} (hstage : s.stage th = .running x todo)
    (hcall : s.call th = .none) (hrest : rest ⊆ todo) : Inv (s.setStage th (.leaving x rest)) := by
  refine hs.setStage_same hstage hcall rfl rfl fun y hy => hs.known_of hstage y ?_
  exact List.cons_subset_cons x hrest hy

/-! ### Deactivators -/

omit hs in
theorem Claims.setCall {claimed : Bool} {removals : ℕ} {call : τ → Call}
    {c : Call} (h : Claims claimed removals call x) (hbefore : call th ≠ .removing x)
    (hafter : c ≠ .removing x) : Claims claimed removals (update call th c) x := by
  have hcall : ∀ th', update call th c th' = .removing x ↔ call th' = .removing x :=
    forall_update (fun th' (c : Call) => c = .removing x ↔ call th' = .removing x) rfl
      (fun _ => iff_of_false hafter hbefore) fun _ => .rfl
  refine ⟨fun hclaimed => ?_, fun hclaimed => ?_⟩
  · obtain ⟨hzero, hnone⟩ := h.unclaimed hclaimed
    exact ⟨hzero, fun th' => (hcall th').not.2 (hnone th')⟩
  · rcases h.claimed hclaimed with ⟨hzero, th₀, honly⟩ | ⟨hone, hnone⟩
    · exact .inl ⟨hzero, th₀, fun th' => (hcall th').trans (honly th')⟩
    · exact .inr ⟨hone, fun th' => (hcall th').not.2 (hnone th')⟩

variable {c' : Call} {g : Registry} {o : τ → Option Owner}

/-- A deactivator goes on. -/
theorem Inv.deactivator {c : Call} {f : Slot → SlotState τ}
    (hcall : s.call th = c') (huser : (s.stage th).user = true) (hf : ∀ x, Flagged (s.slots x) (f x))
    (hg : Registered g)
    (hregistration : ∀ x, s.registry.registration x ≠ none → g.registration x ≠ none)
    (hclaims : ∀ x, Claims (f x).deactivationClaimed (g.removals x) (update s.call th c) x)
    (hcleared : ∀ x, c.cleared? = some x → c'.cleared? = some x ∨ (f x).active = false)
    (hwaiting : ∀ x, c = .waiting x → (f x).deactivationClaimed = true)
    (hcalled : ∀ x, c.slot? = some x → c'.slot? = some x ∨ g.registration x ≠ none) :
    Inv { s with registry := g, slots := f, call := update s.call th c, all := o } := by
  refine ⟨fun x => ?_, hg, hclaims, ?_, ?_, ?_, fun th x hx => hregistration x (hs.known th x hx), ?_⟩
  · exact (hs.slot x).congr (hf x).mutex (hf x).invocations (fun _ => .rfl) fun _ => .rfl
  · refine forall_update (fun _ (c : Call) => ∀ x, c.cleared? = some x → (f x).active = false) hcall
      (fun h x hx => ?_) fun th x hx => (hf x).active (hs.cleared th x hx)
    exact (hcleared x hx).elim (h x) id
  · exact forall_update (fun _ (c : Call) => ∀ x, c = .waiting x → (f x).deactivationClaimed = true)
      rfl (fun _ => hwaiting) fun th x hx => (hf x).claimed (hs.waiting th x hx)
  · exact forall_update (fun th' (c : Call) => c ≠ .none → (s.stage th').user = true) rfl
      (fun _ _ => huser) hs.user
  · refine forall_update (fun _ (c : Call) => ∀ x, c.slot? = some x → g.registration x ≠ none) hcall
      (fun h x hx => ?_) fun th x hx => hregistration x (hs.called th x hx)
    exact (hcalled x hx).elim (h x) id

/-- A deactivator is called, goes on or returns, and touches nothing. -/
theorem Inv.setCall {c : Call} (hcall : s.call th = c')
    (huser : (s.stage th).user = true) (hbefore : ∀ x, c' ≠ .removing x)
    (hafter : ∀ x, c ≠ .removing x) (hcleared : ∀ x, c.cleared? = some x → c'.cleared? = some x)
    (hwaiting : ∀ x, c = .waiting x → (s.slots x).deactivationClaimed = true)
    (hcalled : ∀ x, c.slot? = some x → c'.slot? = some x ∨ s.registry.registration x ≠ none) :
    Inv { s.setCall th c with all := o } := by
  refine hs.deactivator hcall huser (fun _ => .refl _) hs.registered (fun _ => id) (fun x => ?_)
    (fun x hx => .inl (hcleared x hx)) hwaiting hcalled
  exact (hs.claims x).setCall (hcall ▸ hbefore x) (hafter x)

/-- `active` is cleared. -/
theorem Inv.clear (hcall : s.call th = .slot x) :
    Inv ((s.setCall th (.stored x)).setSlot x { s.slots x with active := false }) := by
  refine hs.deactivator hcall
    (hs.user th (by rw [hcall]; nofun)) (Flagged.update ⟨rfl, rfl, fun _ => rfl, id⟩) hs.registered
    (fun _ => id) (fun y => ?_) (fun y hy => .inr ?_) nofun fun y hy => .inl hy
  · refine Claims.setCall ?_ (by rw [hcall]; nofun) nofun
    refine forall_update (fun y (slot : SlotState τ) =>
      Claims slot.deactivationClaimed (s.registry.removals y) s.call y) rfl (fun hx => ?_) hs.claims y
    exact hx
  · cases hy
    rw [update_self]

theorem Inv.claim (hcall : s.call th = .stored x)
    (hclaimed : (s.slots x).deactivationClaimed = false) :
    Inv ((s.setCall th (.removing x)).setSlot x { s.slots x with deactivationClaimed := true }) := by
  obtain ⟨hzero, hnone⟩ := (hs.claims x).unclaimed hclaimed
  have honly : ∀ th', update s.call th (.removing x) th' = .removing x ↔ th' = th := by
    intro th'
    obtain rfl | hth := eq_or_ne th' th
    · rw [update_self]
      exact iff_of_true rfl rfl
    · rw [update_of_ne hth]
      exact iff_of_false (hnone th') hth
  refine hs.deactivator hcall
    (hs.user th (by rw [hcall]; nofun)) (Flagged.update ⟨rfl, rfl, id, fun _ => rfl⟩) hs.registered
    (fun _ => id) ?_ (fun y hy => .inl hy) nofun fun y hy => .inl hy
  refine (forall_update_iff s.slots fun y slot =>
    Claims slot.deactivationClaimed (s.registry.removals y) _ y).2 ⟨?_, fun y hyx => ?_⟩
  · exact ⟨nofun, fun _ => .inl ⟨hzero, th, honly⟩⟩
  · refine (hs.claims y).setCall ?_ fun heq => hyx (Call.removing.inj heq).symm
    rw [hcall]
    nofun

/-- The thread that has claimed the deactivation is the only one, and the slot is still in its list. -/
theorem Inv.removals_zero (hcall : s.call th = .removing x) :
    (s.slots x).deactivationClaimed = true ∧ s.registry.removals x = 0 ∧
      ∀ th', s.call th' = .removing x → th' = th := by
  cases hclaimed : (s.slots x).deactivationClaimed with
  | false => exact absurd hcall (((hs.claims x).unclaimed hclaimed).2 th)
  | true =>
    rcases (hs.claims x).claimed hclaimed with ⟨hzero, th₀, honly⟩ | ⟨-, hnone⟩
    · refine ⟨rfl, hzero, fun th' hth' => ?_⟩
      exact ((honly th').1 hth').trans ((honly th).1 hcall).symm
    · exact absurd hcall (hnone th)

theorem Inv.remove {r : Registration} (hcall : s.call th = .removing x)
    (hr : s.registry.registration x = some r) :
    Inv { s.setCall th (.waiting x) with
      registry := (s.registry.eraseSlot x r).eraseEntry r.entry r.owner } := by
  obtain ⟨hclaimed, hzero, honly⟩ := hs.removals_zero hcall
  refine hs.deactivator hcall (hs.user th (by rw [hcall]; nofun)) (fun _ => .refl _)
    (hs.registered.remove hr hzero) (fun _ => id) ?_ (fun y hy => .inl hy) (fun y hy => ?_)
    fun y hy => .inl hy
  · refine (forall_update_iff s.registry.removals fun y n =>
      Claims (s.slots y).deactivationClaimed n _ y).2 ⟨?_, fun y hyx => ?_⟩
    · rw [hzero]
      refine ⟨fun hnot => ?_, fun _ => .inr ⟨rfl, fun th' => ?_⟩⟩
      · cases hclaimed.symm.trans hnot
      · obtain rfl | hth := eq_or_ne th' th
        · rw [update_self]
          nofun
        · rw [update_of_ne hth]
          exact fun hth' => hth (honly th' hth')
    · refine (hs.claims y).setCall ?_ nofun
      rw [hcall]
      exact fun heq => hyx (Call.removing.inj heq).symm
  · obtain rfl := Call.waiting.inj hy
    exact hclaimed

/-- The lists change, but nothing is erased. -/
theorem Inv.setRegistry (hg : Registered g) (hremovals : g.removals = s.registry.removals)
    (hregistration : ∀ x, s.registry.registration x ≠ none → g.registration x ≠ none) :
    Inv { s with registry := g } := by
  refine ⟨hs.slot, hg, fun x => ?_, hs.cleared, hs.waiting, hs.user, fun th x hx => ?_, fun th x hx => ?_⟩
  · show Claims _ (g.removals x) _ x
    rw [hremovals]
    exact hs.claims x
  · exact hregistration x (hs.known th x hx)
  · exact hregistration x (hs.called th x hx)

/-- A new slot has its initial state; nobody knows it yet. -/
theorem Inv.newSlot (hx : s.registry.registration x = none) : Inv (s.setSlot x .initial) := by
  have hcall : ∀ th, (s.call th).slot? ≠ some x := fun th hth => hs.called th x hth hx
  have hheld : ∀ th, (s.stage th).held ≠ some x :=
    fun th hth => hs.known th x (Stage.mem_slots_of_held hth) hx
  refine ⟨?_, hs.registered, ?_, fun th => ?_, fun th => ?_, hs.user, hs.known, hs.called⟩
  · refine forall_update (fun y (slot : SlotState τ) => SlotOk s.stage slot y) rfl (fun _ => ?_) hs.slot
    exact ⟨fun th => iff_of_false nofun (hheld th), fun _ => rfl, fun _ => nofun⟩
  · refine forall_update
      (fun y (slot : SlotState τ) => Claims slot.deactivationClaimed (s.registry.removals y) s.call y) rfl
      (fun _ => ⟨fun _ => ⟨(hs.registered.handlers.fresh x hx).1, fun th hth => hcall th ?_⟩, nofun⟩) hs.claims
    rw [hth]
    rfl
  · refine forall_update (fun y (slot : SlotState τ) => (s.call th).cleared? = some y → slot.active = false) rfl
      (fun _ hth => absurd ?_ (hcall th)) (hs.cleared th)
    cases hc : s.call th with
    | stored | removing | waiting =>
      rw [hc] at hth
      exact hth
    | _ =>
      rw [hc] at hth
      cases hth
  · refine forall_update (fun y (slot : SlotState τ) => s.call th = .waiting y → slot.deactivationClaimed = true) rfl
      (fun _ hth => absurd ?_ (hcall th)) (hs.waiting th)
    rw [hth]
    rfl

theorem Inv.returned (hcall : s.call th = c') (huser : (s.stage th).user = true)
    (hbefore : ∀ x, c' ≠ .removing x) : Inv (s.returned th) := by
  refine hs.setCall hcall huser hbefore (fun x => ?_) (fun x hx => ?_) (fun x hx => ?_) fun x hx => ?_
  all_goals cases hall : s.all th
  · nofun
  · nofun
  all_goals
    rw [hall] at hx
    cases hx

theorem Inv.invoke {d : Deactivator} (hcall : s.call th = c')
    (huser : (s.stage th).user = true) (hbefore : ∀ x, c' ≠ .removing x)
    (hissued : s.registry.issued d = true) : Inv { s.invoke th d with all := o } := by
  cases d with
  | slot x =>
    refine hs.setCall hcall huser hbefore nofun nofun nofun fun y hy => .inr ?_
    cases hy
    exact isSome_iff_ne_none.1 hissued
  | named n => exact hs.setCall hcall huser hbefore nofun nofun nofun nofun

omit hs in
/-- An entry in a list of deactivators may be called. -/
theorem Registered.issued (h : Registered g) {d : Deactivator} {o : Owner}
    (hd : d ∈ g.deactivators o) : g.issued d = true := by
  have howner : g.ownerOf d ≠ none := fun hnone => (h.entries.fresh d hnone).2 o hd
  cases d with
  | slot x =>
    refine isSome_iff_ne_none.2 fun hnone => howner ?_
    exact h.links.slotFresh x hnone
  | named n =>
    refine isSome_iff_ne_none.2 fun hnone => howner ?_
    exact h.links.namedFresh n hnone

omit hs in
theorem cancelNamed_registration (g : Registry) (n : ℕ) (a : NamedActivation) :
    (g.cancelNamed n a).registration = g.registration ∧ (g.cancelNamed n a).removals = g.removals := by
  unfold Registry.cancelNamed
  split_ifs
  · exact ⟨rfl, rfl⟩
  · split <;> exact ⟨rfl, rfl⟩

theorem Inv.callStep (h : s.callStep th = some t) : Inv t := by
  have huser : ∀ {c : Call}, s.call th = c → c ≠ .none → (s.stage th).user = true :=
    fun hcall hne => hs.user th (hcall ▸ hne)
  unfold State.callStep at h
  split at h
  next => cases h
  next n hcall =>
    obtain ⟨a, ha, rfl⟩ := map_eq_some_iff.1 h
    obtain ⟨hregistration, hremovals⟩ := cancelNamed_registration s.registry n a
    have hnext : Inv { s with registry := s.registry.cancelNamed n a } :=
      hs.setRegistry (hs.registered.cancelNamed ha) hremovals fun x hx => by rwa [hregistration]
    dsimp only
    split
    next => exact hnext.returned hcall (huser hcall nofun) nofun
    next x hx =>
      refine hnext.setCall hcall (huser hcall nofun) nofun nofun nofun nofun fun y hy => .inr ?_
      cases hy
      obtain ⟨r, hr, -⟩ := hs.registered.links.namedSlot n a x ha hx
      show (s.registry.cancelNamed n a).registration x ≠ none
      rw [hregistration, hr]
      nofun
  next x hcall =>
    cases h
    exact hs.clear hcall
  next x hcall =>
    split_ifs at h with hclaimed
    · cases h
      refine hs.setCall hcall (huser hcall nofun) nofun nofun (fun y hy => hy) (fun y hy => ?_)
        fun y hy => .inl hy
      obtain rfl := Call.waiting.inj hy
      exact hclaimed
    · cases h
      exact hs.claim hcall (Bool.eq_false_iff.2 hclaimed)
  next x hcall =>
    obtain ⟨r, hr, rfl⟩ := map_eq_some_iff.1 h
    exact hs.remove hcall hr
  next x hcall =>
    split_ifs at h
    cases h
    exact hs.returned hcall (huser hcall nofun) nofun
  next o hcall =>
    split at h
    next =>
      cases h
      exact hs.setCall hcall (huser hcall nofun) nofun nofun nofun nofun nofun
    next d hd =>
      cases h
      exact hs.invoke hcall (huser hcall nofun) nofun
        (hs.registered.issued (List.mem_of_getLast? hd))

/-! ### Runs -/

theorem Inv.step {act : Action τ} (h : s.step act = some t) : Inv t := by
  cases act with
  | activate x owner typeId coordinatorLocal exported senderId =>
    obtain ⟨hx, rfl⟩ := of_guard h
    refine (hs.newSlot hx).setRegistry (hs.registered.activate hx rfl) rfl fun y hy => ?_
    exact addSlot_registration hy
  | activateNamed n owner =>
    simp only [State.step] at h
    split at h
    next => cases h
    next hn =>
      cases h
      exact hs.setRegistry (hs.registered.activateNamed hn owner) rfl fun _ => id
  | available n x typeId coordinatorLocal exported senderId =>
    simp only [State.step] at h
    split at h
    next => cases h
    next a ha =>
      obtain ⟨⟨hcancelled, hnone, hx⟩, rfl⟩ := of_guard h
      refine (hs.newSlot hx).setRegistry
        (hs.registered.available ha hnone hcancelled hx rfl rfl) rfl fun y hy => ?_
      exact addSlot_registration hy
  | deactivate th d =>
    rw [State.step, Option.ite_none_right_eq_some, Bool.and_eq_true, State.inUserCode, Bool.and_eq_true,
      decide_eq_true_eq] at h
    obtain ⟨⟨⟨huser, hcall⟩, hissued⟩, h⟩ := h
    cases h
    exact hs.invoke hcall huser nofun hissued
  | deactivateAll th o =>
    rw [State.step, Option.ite_none_right_eq_some, State.inUserCode, Bool.and_eq_true,
      decide_eq_true_eq] at h
    obtain ⟨⟨huser, hcall⟩, h⟩ := h
    cases h
    exact hs.setCall hcall huser nofun nofun nofun nofun nofun
  | dispatch th typeId scopeIds =>
    obtain ⟨⟨hidle, hcall⟩, rfl⟩ := of_guard h
    exact hs.dispatch hidle hcall
  | advance th => exact hs.advance h
  | finish th throws =>
    simp only [State.step] at h
    split at h
    next x todo hstage =>
      obtain ⟨hcall, rfl⟩ := of_guard h
      refine hs.finish hstage hcall ?_
      split_ifs
      · exact List.nil_subset _
      · exact List.Subset.refl _
    next => cases h
  | call th => exact hs.callStep h

end

/-- The invariant of every run. -/
theorem reachable_inv (h : (machine τ).Reachable s) : Inv s :=
  h.invariant (fun _ => inv_init) fun _ _ _ hs => hs.step

/-! ### Quiescence -/

/-- What a step cannot do: make a slot active again, or enter a handler that is not active. -/
structure Effect (s t : State τ) : Prop where
  registration : ∀ x, s.registry.registration x ≠ none → t.registry.registration x ≠ none
  active : ∀ x, s.registry.registration x ≠ none → (s.slots x).active = false →
    (t.slots x).active = false
  running : ∀ th x, t.Running th x → s.Running th x ∨ (s.slots x).active = true

theorem effect_setStage {q : Stage} {slots : Slot → SlotState τ}
    (hactive : ∀ x, (slots x).active = (s.slots x).active)
    (hrunning : ∀ x todo, q = .running x todo → (s.slots x).active = true) :
    Effect s { s.setStage th q with slots := slots } := by
  refine ⟨fun _ => id, fun x _ hx => (hactive x).trans hx, fun th' x => ?_⟩
  rintro ⟨todo, htodo⟩
  change update s.stage th q th' = _ at htodo
  obtain rfl | hth := eq_or_ne th' th
  · rw [update_self] at htodo
    exact .inr (hrunning x todo htodo)
  · rw [update_of_ne hth] at htodo
    exact .inl ⟨todo, htodo⟩

theorem effect_advance (h : s.advance th = some t) : Effect s t := by
  have hslot : ∀ {x slot}, slot.active = (s.slots x).active →
      ∀ y, (update s.slots x slot y).active = (s.slots y).active := by
    intro x slot hx
    exact forall_update (fun y (slot : SlotState τ) => slot.active = (s.slots y).active) rfl
      (fun _ => hx) fun _ => rfl
  unfold State.advance at h
  split at h
  case h_2 x todo hstage | h_4 x todo hstage =>
    cases h
    refine effect_setStage (fun _ => rfl) fun y rest hq => ?_
    split_ifs at hq
  case h_5 x todo hstage | h_7 x todo hstage | h_8 x todo hstage =>
    cases h
    exact effect_setStage (hslot rfl) nofun
  next =>
    cases h
    exact effect_setStage (fun _ => rfl) nofun
  next x todo hstage =>
    obtain ⟨-, rfl⟩ := of_guard h
    exact effect_setStage (hslot rfl) nofun
  next x todo hstage =>
    cases h
    refine effect_setStage (fun _ => rfl) fun y rest hq => ?_
    split_ifs at hq with hactive
    obtain ⟨rfl, -⟩ := Stage.running.inj hq
    exact hactive
  next => cases h

/-- A step that is no part of a dispatch. -/
theorem Effect.of_stage
    (hregistration : ∀ x, s.registry.registration x ≠ none → t.registry.registration x ≠ none)
    (hactive : ∀ x, s.registry.registration x ≠ none → (s.slots x).active = false →
      (t.slots x).active = false) (hstage : t.stage = s.stage) : Effect s t := by
  refine ⟨hregistration, hactive, fun th x => ?_⟩
  rintro ⟨todo, htodo⟩
  rw [hstage] at htodo
  exact .inl ⟨todo, htodo⟩

theorem invoke_eq (s : State τ) (th : τ) (d : Deactivator) : ∃ c, s.invoke th d = s.setCall th c := by
  cases d with
  | slot x | named n => exact ⟨_, rfl⟩

theorem effect_callStep (h : s.callStep th = some t) : Effect s t := by
  unfold State.callStep at h
  split at h
  next => cases h
  next n hcall =>
    obtain ⟨a, -, rfl⟩ := map_eq_some_iff.1 h
    have hregistration := (cancelNamed_registration s.registry n a).1
    split
    case h_1 | h_2 => exact .of_stage (fun x hx => by rwa [← hregistration] at hx) (fun _ _ => id) rfl
  next x hcall =>
    cases h
    refine .of_stage (fun _ => id) (fun y _ => ?_) rfl
    exact forall_update (fun y (slot : SlotState τ) => (s.slots y).active = false → slot.active = false)
      rfl (fun _ _ => rfl) (fun _ => id) y
  next x hcall =>
    split_ifs at h
    · cases h
      exact .of_stage (fun _ => id) (fun _ _ => id) rfl
    · cases h
      refine .of_stage (fun _ => id) (fun y _ => ?_) rfl
      refine forall_update (fun y (slot : SlotState τ) => (s.slots y).active = false → slot.active = false)
        rfl (fun hx => ?_) (fun _ => id) y
      exact hx
  next x hcall =>
    obtain ⟨r, -, rfl⟩ := map_eq_some_iff.1 h
    exact .of_stage (fun _ => id) (fun _ _ => id) rfl
  next x hcall =>
    split_ifs at h
    cases h
    exact .of_stage (fun _ => id) (fun _ _ => id) rfl
  next o hcall =>
    split at h
    next =>
      cases h
      exact .of_stage (fun _ => id) (fun _ _ => id) rfl
    next d _ =>
      cases h
      obtain ⟨c, hc⟩ := invoke_eq s th d
      rw [hc]
      exact .of_stage (fun _ => id) (fun _ _ => id) rfl

theorem effect_step {act : Action τ} (h : s.step act = some t) : Effect s t := by
  have hinitial : ∀ {x}, s.registry.registration x = none → ∀ y, s.registry.registration y ≠ none →
      (s.slots y).active = false → (update s.slots x .initial y).active = false := by
    intro x hx y hy
    have hyx : y ≠ x := by
      rintro rfl
      exact hy hx
    rw [update_of_ne hyx]
    exact id
  cases act with
  | activate x owner typeId coordinatorLocal exported senderId =>
    obtain ⟨hg, rfl⟩ := of_guard h
    exact .of_stage (fun y hy => addSlot_registration hy) (hinitial hg) rfl
  | activateNamed n owner =>
    simp only [State.step] at h
    split at h
    next => cases h
    next =>
      cases h
      exact .of_stage (fun _ => id) (fun _ _ => id) rfl
  | available n x typeId coordinatorLocal exported senderId =>
    simp only [State.step] at h
    split at h
    next => cases h
    next =>
      obtain ⟨hg, rfl⟩ := of_guard h
      exact .of_stage (fun y hy => addSlot_registration hy) (hinitial hg.2.2) rfl
  | deactivate th d =>
    obtain ⟨-, rfl⟩ := of_guard h
    obtain ⟨c, hc⟩ := invoke_eq s th d
    rw [hc]
    exact .of_stage (fun _ => id) (fun _ _ => id) rfl
  | deactivateAll th o =>
    obtain ⟨-, rfl⟩ := of_guard h
    exact .of_stage (fun _ => id) (fun _ _ => id) rfl
  | dispatch th typeId scopeIds =>
    obtain ⟨-, rfl⟩ := of_guard h
    exact effect_setStage (fun _ => rfl) nofun
  | advance th => exact effect_advance h
  | finish th throws =>
    simp only [State.step] at h
    split at h
    next =>
      obtain ⟨-, rfl⟩ := of_guard h
      exact effect_setStage (fun _ => rfl) nofun
    next => cases h
  | call th => exact effect_callStep h

/-- A handler that is not active stays so, and is not entered any more. -/
theorem effect_steps (hregistration : s.registry.registration x ≠ none)
    (hactive : (s.slots x).active = false) {u : State τ} (h : (machine τ).Steps s u) :
    u.registry.registration x ≠ none ∧ (u.slots x).active = false ∧
      ∀ th, u.Running th x → s.Running th x := by
  induction h with
  | refl => exact ⟨hregistration, hactive, fun _ => id⟩
  | tail _ hstep ih =>
    obtain ⟨hreg, hoff, hrunning⟩ := ih
    have heffect := effect_step hstep
    refine ⟨heffect.registration x hreg, heffect.active x hreg hoff, fun th hth => ?_⟩
    rcases heffect.running th x hth with hbefore | hon
    · exact hrunning th hbefore
    · cases hoff.symm.trans hon

/-- When the loop of a deactivator ends, only its own thread can be inside the handler. -/
theorem Inv.quiet (hs : Inv s) {th th' : τ} (hcall : s.call th = .waiting x)
    (hle : ¬s.allowedInvocations th x < (s.slots x).invocations) (hrunning : s.Running th' x) :
    th' = th ∧ s.Running th x := by
  obtain ⟨todo, hstage⟩ := hrunning
  have hmutex : (s.slots x).invocationMutex = some th' := ((hs.slot x).holder th').2 (by rw [hstage]; rfl)
  have hone : (s.slots x).invocations = 1 := by
    rw [(hs.slot x).counted th' hmutex, hstage]
    simp [Stage.currentHandlerSlotState]
  rw [hone, State.allowedInvocations] at hle
  have hcurrent : (s.stage th).currentHandlerSlotState = some x := by
    by_contra hne
    rw [if_neg hne] at hle
    exact hle Nat.zero_lt_one
  have hself := ((hs.slot x).holder th).2 (Stage.held_of_current hcurrent)
  refine ⟨mem_unique hmutex hself, ?_⟩
  exact Stage.running_of_current (hs.user th (by rw [hcall]; nofun)) hcurrent

/-- **Quiescence.** When a deactivator of a slot returns, nobody but its own thread is or will be inside
the handler of the slot, its own thread only if it was already, and no invocation starts any more. The
slot and its entry have been erased then, or the thread that does so is about to. Every slot is in its
list of handlers or has been erased from it, once, and its entry in the list of deactivators likewise. -/
theorem handlers_quiescent (h : (machine τ).Reachable s) :
    (∀ th x t, s.call th = .waiting x → s.step (.call th) = some t →
      (∀ u, (machine τ).Steps t u →
        (∀ th', u.Running th' x → th' = th ∧ s.Running th x) ∧
        ∀ act v, u.step act = some v → ∀ th', v.Running th' x → u.Running th' x) ∧
      (t.registry.removals x = 1 ∨ ∃ th', t.call th' = .removing x ∧ (t.step (.call th')).isSome)) ∧
    ∀ x r, s.registry.registration x = some r →
      (s.registry.handlers r.messageTypeId r.effectiveSenderId).count x + s.registry.removals x = 1 ∧
      (∀ typeId sid, x ∈ s.registry.handlers typeId sid →
        typeId = r.messageTypeId ∧ sid = r.effectiveSenderId) ∧
      (s.registry.deactivators r.owner).count r.entry + s.registry.entryRemovals r.entry = 1 ∧
      (∀ o, r.entry ∈ s.registry.deactivators o → o = r.owner) ∧
      s.registry.entryRemovals r.entry = s.registry.removals x := by
  have hs := reachable_inv h
  refine ⟨fun th x t hcall hstep => ?_, fun x r hr => ?_⟩
  · have hknown : s.registry.registration x ≠ none := hs.called th x (by rw [hcall]; rfl)
    have hactive : (s.slots x).active = false := hs.cleared th x (by rw [hcall]; rfl)
    have ht := hs.step hstep
    simp only [State.step, State.callStep, hcall] at hstep
    split_ifs at hstep with hle
    cases hstep
    refine ⟨fun u hu => ?_, ?_⟩
    · obtain ⟨-, hoff, hrunning⟩ := effect_steps (s := s.returned th) hknown hactive hu
      refine ⟨fun th' hth' => hs.quiet hcall hle (hrunning th' hth'), fun act v hv th' hth' => ?_⟩
      rcases (effect_step hv).running th' x hth' with hbefore | hon
      · exact hbefore
      · cases hoff.symm.trans hon
    · rcases (ht.claims x).claimed (hs.waiting th x hcall) with ⟨-, th', honly⟩ | ⟨hone, -⟩
      · have hremoving := (honly th').2 rfl
        refine .inr ⟨th', hremoving, ?_⟩
        obtain ⟨r, hr⟩ := ne_none_iff_exists'.1 hknown
        have hr' : (s.returned th).registry.registration x = some r := hr
        rw [State.step, State.callStep, hremoving]
        dsimp only
        rw [hr']
        rfl
      · exact .inl hone
  · obtain ⟨howner, hremovals⟩ := hs.registered.links.entryOf x r hr
    exact ⟨hs.registered.handlers.here x r hr, fun typeId sid => hs.registered.handlers.elsewhere x r typeId sid hr,
      hs.registered.entries.here _ _ howner, fun o => hs.registered.entries.elsewhere _ _ o howner, hremovals⟩

end

/-- Two threads and a handler of message type 1 for the sender ⟨2, 1⟩. One thread is inside the handler
when the other has called the deactivator; it calls the deactivator too, and returns. -/
def bothDeactivate : List (Action Bool) :=
  [.activate 0 7 1 false false ⟨2, 1⟩, .dispatch false 1 [⟨2, 1⟩], .deactivate true (.slot 0),
    .advance false, .advance false, .advance false, .advance false, .advance false, .call true, .call true,
    .call true, .deactivate false (.slot 0), .call false, .call false]

theorem handlers_quiescent_bothDeactivate :
    ∃ s t : State Bool, (machine Bool).Reachable s ∧ s.call false = .waiting 0 ∧
      s.call true = .waiting 0 ∧ s.stage false = .running 0 [] ∧ s.step (.call false) = some t ∧
      (∀ th, t.Running th 0 → th = false) ∧ t.registry.removals 0 = 1 := by
  obtain ⟨s, hs, hself, hother, hrunning, hremoved, hreturns⟩ :
      ∃ s : State Bool, (machine Bool).Reachable s ∧ s.call false = .waiting 0 ∧
        s.call true = .waiting 0 ∧ s.stage false = .running 0 [] ∧ s.registry.removals 0 = 1 ∧
        ((s.step (.call false)).any fun t => t.registry.removals 0 = 1) = true :=
    exists_reachable_of_exec (s := ⟨⟨fun _ _ => [], fun _ => [], fun _ => none, fun _ => none,
      fun _ => none, fun _ => 0, fun _ => 0⟩, fun _ => .initial, fun _ => .idle, fun _ => .none,
      fun _ => none⟩) bothDeactivate ⟨rfl, fun _ => rfl, fun _ => ⟨rfl, rfl, rfl⟩⟩ (by decide +kernel)
  obtain ⟨t, ht, htremoved⟩ := (any_eq_true _ _).1 hreturns
  have hquiet := (handlers_quiescent hs).1 false 0 t hself ht
  exact ⟨s, t, hs, hself, hother, hrunning, ht, fun th hth => ((hquiet.1 t (.refl t)).1 th hth).1,
    of_decide_eq_true htremoved⟩

end Sintra.Messaging.Handlers
