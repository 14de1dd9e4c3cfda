import Sintra.Lib.Updates
import Sintra.Process.BarrierRounds

/-!
# The invariant of barrier rounds

`Inv s` ties the reusable barrier objects to the ghost history of their rounds (`reachable_inv`).

Every step changes at most one round; `Inv.update` states what has to be shown about that round.
-/

namespace Sintra.Process.Barriers

open State Option

/-! ### Completions of a round -/

/-- The completions of a round, sent or still to be written. -/
def State.completionsOf (s : State) (f : InstanceId) : Multiset Message :=
  s.messages.filter fun m => m.round = some f

/-- The completions a round should have. -/
def Round.expected (r : Round) (f : InstanceId) : Multiset Message :=
  if r.complete then
    completions r.deferred f +
      match r.last with
      | some (q, c) => {.completion q c f}
      | none => 0
  else 0

@[simp] theorem messages_setGroup (s : State) (g : ProcessGroup) :
    (s.setGroup g).messages = s.messages := rfl

@[simp] theorem messages_setRound (s : State) (f : InstanceId) (r : Option Round) :
    (s.setRound f r).messages = s.messages := rfl

@[simp] theorem messages_tick (s : State) : s.tick.messages = s.messages := rfl

theorem messages_addHandler (s : State) (h : Handler) :
    (s.addHandler h).messages = s.messages + h.outstanding := by
  rw [messages, addHandler, Multiset.cons_bind, add_comm h.outstanding, ← add_assoc]
  rfl

theorem messages_send (s : State) (m : Message) : (s.send m).messages = s.messages + {m} := by
  rw [messages, send, ← Multiset.coe_add, Multiset.coe_singleton, add_right_comm]
  rfl

variable {s : State}

/-- A handler of the state moves on. -/
theorem messages_replaceHandler {h : Handler} (hh : h ∈ s.handlers) (h' : Handler) :
    (s.replaceHandler h h').messages + h.outstanding = s.messages + h'.outstanding := by
  have hsplit : s.handlers.bind Handler.outstanding =
      h.outstanding + (s.handlers.erase h).bind Handler.outstanding := by
    rw [← Multiset.cons_bind, Multiset.cons_erase hh]
  rw [messages, messages, replaceHandler, hsplit, Multiset.cons_bind]
  simp only [add_assoc, add_comm, add_left_comm]

theorem outstanding_reply (closing : Option (String × ℕ × InstanceId)) (queue : Multiset Message)
    (m : Message) : Handler.outstanding ⟨closing, queue, some m⟩ = queue + {m} := by
  simp [Handler.outstanding]

theorem outstanding_none (closing : Option (String × ℕ × InstanceId)) (queue : Multiset Message) :
    Handler.outstanding ⟨closing, queue, none⟩ = queue := by
  simp [Handler.outstanding]

theorem filter_completions (recipients : Finset InstanceId) (iid f : InstanceId) :
    (completions recipients iid).filter (fun m => m.round = some f) =
      if f = iid then completions recipients iid else 0 := by
  split_ifs with h
  · rw [Multiset.filter_eq_self]
    intro m hm
    obtain ⟨p, -, rfl⟩ := Multiset.mem_map.mp hm
    rw [h]
    rfl
  · rw [Multiset.filter_eq_nil]
    intro m hm
    obtain ⟨p, -, rfl⟩ := Multiset.mem_map.mp hm
    simp only [Message.round, some.injEq]
    exact fun heq => h heq.symm

/-! ### The invariant -/

/-- A barrier object and the round it is in. -/
structure Fits (n : String) (b : Barrier) (r : Round) : Prop where
  name : r.name = n
  captured : r.captured ⊆ b.processesPending ∪ (r.called ∪ r.dropped)
  pending_called : Disjoint b.processesPending r.called
  arrived_eq : r.arrivedDropped = false → b.processesArrived = r.called

/-- The same between two steps: the round is complete once nobody is pending. -/
structure EntryOk (n : String) (b : Barrier) (r : Round) : Prop extends Fits n b r where
  complete_iff : r.complete = true ↔ b.processesPending = ∅

/-- A round and what was sent in it. -/
structure RoundOk (s : State) (f : InstanceId) (r : Round) : Prop where
  lt : f < s.nextIid
  ne_invalid : f ≠ invalidInstanceId
  complete_captured : r.complete = true → r.captured ⊆ r.called ∪ r.dropped
  called_eq : r.called = r.deferred ∪ (r.last.map Prod.fst).toFinset
  last_none : r.complete = false → r.last = none
  last_deferred : ∀ x, r.last = some x → x.1 ∉ r.deferred
  deferred_iff : ∀ p, p ∈ r.deferred ↔ ∃ c, Message.deferral p c f ∈ s.messages
  sent_complete : s.completionsOf f ≠ 0 → r.complete = true
  completions_eq : r.arrivedDropped = false → s.completionsOf f = r.expected f

/-- The invariant of the barriers of a group. -/
structure Inv (s : State) : Prop where
  entry : ∀ n b, s.group.barriers.lookup n = some b →
    ∃ r, s.rounds b.commonFunctionIid = some r ∧ EntryOk n b r
  round : ∀ f r, s.rounds f = some r → RoundOk s f r
  fresh : ∀ f, s.rounds f = none →
    s.completionsOf f = 0 ∧ ∀ p c, Message.deferral p c f ∉ s.messages

theorem Inv.initial : Inv initial where
  entry := fun n b h => by simp [State.initial] at h
  round := fun f r h => by cases h
  fresh := fun f _ => ⟨rfl, fun _ _ => Multiset.notMem_zero _⟩

/-- A round is unchanged by a step that sends nothing in it. -/
theorem RoundOk.congr {s' : State} {f : InstanceId} {r : Round} (h : RoundOk s f r)
    (hlt : s.nextIid ≤ s'.nextIid) (hc : s'.completionsOf f = s.completionsOf f)
    (hd : ∀ p c, Message.deferral p c f ∈ s'.messages ↔ Message.deferral p c f ∈ s.messages) :
    RoundOk s' f r :=
  { h with
    lt := h.lt.trans_le hlt
    deferred_iff := fun p => by simp only [hd]; exact h.deferred_iff p
    sent_complete := fun hne => h.sent_complete (hc ▸ hne)
    completions_eq := fun hf => by rw [hc]; exact h.completions_eq hf }

/-- A step that changes no round, keeps the entries it does not erase and sends no completion. -/
theorem Inv.congr {s' : State} (hs : Inv s)
    (hentry : ∀ n b, s'.group.barriers.lookup n = some b → s.group.barriers.lookup n = some b)
    (hrounds : s'.rounds = s.rounds) (hlt : s.nextIid ≤ s'.nextIid)
    (hc : ∀ f, s'.completionsOf f = s.completionsOf f)
    (hd : ∀ p c f, Message.deferral p c f ∈ s'.messages ↔ Message.deferral p c f ∈ s.messages) :
    Inv s' where
  entry := fun n b h => by
    rw [hrounds]
    exact hs.entry n b (hentry n b h)
  round := fun f r h => (hs.round f r (hrounds ▸ h)).congr hlt (hc f) fun p c => hd p c f
  fresh := fun f h => by
    obtain ⟨h0, hdef⟩ := hs.fresh f (hrounds ▸ h)
    exact ⟨(hc f).trans h0, fun p c hm => hdef p c ((hd p c f).mp hm)⟩

section

variable {s s' : State} (hs : Inv s) {n : String} {f : InstanceId} {r : Round}
  (hname : ∀ r₀, s.rounds f = some r₀ → r₀.name = n)
  (hrounds : s'.rounds = Function.update s.rounds f (some r)) (hlt : s.nextIid ≤ s'.nextIid)
  (hc : ∀ g, g ≠ f → s'.completionsOf g = s.completionsOf g) (hd : ∀ p c g, g ≠ f →
    (Message.deferral p c g ∈ s'.messages ↔ Message.deferral p c g ∈ s.messages))
  (hround : RoundOk s' f r)

include hs hname hrounds hlt hc hd hround

/-- A step on the barrier `n` that puts the round `f` into the state `r`, and leaves its object, if
it stays in the map, in a state that fits. -/
theorem Inv.update
    (hother : ∀ m b, m ≠ n → s'.group.barriers.lookup m = some b →
      s.group.barriers.lookup m = some b)
    (hself : ∀ b, s'.group.barriers.lookup n = some b → b.commonFunctionIid = f ∧ EntryOk n b r) :
    Inv s' where
  entry := fun m b h => by
    rw [hrounds]
    obtain rfl | hmn := eq_or_ne m n
    · obtain ⟨hf, hok⟩ := hself b h
      exact ⟨r, by rw [hf, Function.update_self], hok⟩
    · obtain ⟨r₀, hr₀, hok⟩ := hs.entry m b (hother m b hmn h)
      have hne : b.commonFunctionIid ≠ f := by
        rintro rfl
        exact hmn (hok.name.symm.trans (hname r₀ hr₀))
      exact ⟨r₀, by rw [Function.update_of_ne hne]; exact hr₀, hok⟩
  round := fun g r₀ h => by
    rw [hrounds] at h
    obtain ⟨rfl, ⟨⟩⟩ | ⟨hgf, h⟩ := Updates.update_cases h
    · exact hround
    · exact (hs.round g r₀ h).congr hlt (hc g hgf) fun p c => hd p c g hgf
  fresh := fun g h => by
    rw [hrounds] at h
    obtain ⟨-, ⟨⟩⟩ | ⟨hgf, h⟩ := Updates.update_cases h
    obtain ⟨h0, hdef⟩ := hs.fresh g h
    exact ⟨(hc g hgf).trans h0, fun p c hm => hdef p c ((hd p c g hgf).mp hm)⟩

/-- The same where the object stays in the map. -/
theorem Inv.put {b : Barrier} (hgroup : s'.group = s.group.put n b) (hf : b.commonFunctionIid = f)
    (hok : EntryOk n b r) : Inv s' := by
  refine hs.update hname hrounds hlt hc hd hround (fun m b' hmn h => ?_) fun b' h => ?_
  all_goals rw [hgroup] at h
  · rcases ProcessGroup.lookup_put_eq_some h with ⟨hmn', -⟩ | ⟨-, h⟩
    · exact absurd hmn' hmn
    · exact h
  · rcases ProcessGroup.lookup_put_eq_some h with ⟨-, rfl⟩ | ⟨hne, -⟩
    · exact ⟨hf, hok⟩
    · exact absurd rfl hne

end

/-- A round has the name of the barrier in it. -/
theorem EntryOk.name_eq {n : String} {b : Barrier} {r : Round} {f : InstanceId}
    (hok : EntryOk n b r) (hr : s.rounds f = some r) (r₀ : Round) (hr₀ : s.rounds f = some r₀) :
    r₀.name = n := by
  obtain rfl := mem_unique hr hr₀
  exact hok.name

/-! ### Arrivals -/

section arrivals

variable {s : State} {n : String}

/-- The round the caller joins, before it arrives: `r` is its record. -/
structure Joined (s : State) (n : String) (b : Barrier) (r : Round) : Prop where
  fits : Fits n b r
  name_eq : ∀ r₀, s.rounds b.commonFunctionIid = some r₀ → r₀.name = n
  lt : b.commonFunctionIid < s.nextIid + 2
  ne_invalid : b.commonFunctionIid ≠ invalidInstanceId
  called_eq : r.called = r.deferred
  called_empty : b.processesPending = ∅ → r.called = ∅
  not_complete : r.complete = false
  last_none : r.last = none
  deferred_iff : ∀ p, p ∈ r.deferred ↔ ∃ c, Message.deferral p c b.commonFunctionIid ∈ s.messages
  completions_eq : s.completionsOf b.commonFunctionIid = 0

theorem Inv.rounds_eq_none (hs : Inv s) {f : InstanceId} (hf : s.nextIid ≤ f) :
    s.rounds f = none := by
  cases hr : s.rounds f with
  | none => rfl
  | some r => exact absurd (hs.round f r hr).lt hf.not_gt

variable {b : Barrier} {r : Round} {s' : State}

/-- A round in flight can be joined. -/
theorem Inv.joined_entry (hs : Inv s) (hl : s.group.barriers.lookup n = some b)
    (hpending : b.processesPending ≠ ∅) : Joined s n b (s.roundOf n b) := by
  obtain ⟨r, hr, hok⟩ := hs.entry n b hl
  have hround := hs.round _ r hr
  have hopen : r.complete = false := by
    rw [← Bool.not_eq_true, hok.complete_iff]
    exact hpending
  have hlast : r.last = none := hround.last_none hopen
  have hrr : s.roundOf n b = r := by simp only [roundOf, hr, getD_some]
  rw [hrr]
  exact
    { fits := hok.toFits
      name_eq := hok.name_eq hr
      lt := hround.lt.trans (Nat.lt_add_of_pos_right (by decide))
      ne_invalid := hround.ne_invalid
      called_eq := by simpa [hlast] using hround.called_eq
      called_empty := fun h => absurd h hpending
      not_complete := hopen
      last_none := hlast
      deferred_iff := hround.deferred_iff
      completions_eq := by
        by_contra hne
        rw [hround.sent_complete hne] at hopen
        cases hopen }

/-- A new round can be joined. -/
theorem Inv.joined_opened (hs : Inv s) (b : Barrier) (modeTag : ℤ) :
    let b' := b.startRound s.group.processIds
      (ProcessGroup.absent s.draining s.inCollectiveShutdown n) modeTag (s.nextIid + 1)
    Joined s n b' (s.roundOf n b') := by
  intro b'
  have hnone : s.rounds (s.nextIid + 1) = none := hs.rounds_eq_none (Nat.le_succ _)
  obtain ⟨h0, hdef⟩ := hs.fresh _ hnone
  have hrr : s.roundOf n b' = Round.opened n b'.processesPending := by
    simp only [roundOf, b', Barrier.startRound, hnone, getD_none]
  rw [hrr]
  exact
    { fits := ⟨rfl, Finset.subset_union_left, Finset.disjoint_empty_right _, fun _ => rfl⟩
      name_eq := fun r₀ hr₀ => by
        rw [show b'.commonFunctionIid = s.nextIid + 1 from rfl, hnone] at hr₀
        cases hr₀
      lt := Nat.lt_succ_self _
      ne_invalid := Nat.succ_ne_zero _
      called_eq := rfl
      called_empty := fun _ => rfl
      not_complete := rfl
      last_none := rfl
      deferred_iff := fun p => by
        refine ⟨fun h => absurd h (Finset.notMem_empty p), fun h => h.elim fun c hc => absurd hc (hdef p c)⟩
      completions_eq := h0 }

/-- What `joinRound` returns: the round in flight, or a new one. -/
theorem Inv.joined (hs : Inv s) {modeTag : ℤ}
    (h : s.group.joinRound (ProcessGroup.absent s.draining s.inCollectiveShutdown n) n modeTag
      (s.nextIid + 1) s.nextObject = .ok b) : Joined s n b (s.roundOf n b) := by
  unfold ProcessGroup.joinRound at h
  simp only at h
  split_ifs at h with hempty hmode
  · cases h
    exact hs.joined_opened _ _
  · cases h
    cases hl : s.group.barriers.lookup n with
    | none =>
      simp only [ProcessGroup.entry, hl, getD_none] at hempty
      exact absurd rfl hempty
    | some b =>
      have hb : s.group.entry n s.nextObject = b := by
        simp only [ProcessGroup.entry, hl, getD_some]
      rw [hb] at hempty ⊢
      exact hs.joined_entry hl hempty

variable {caller : InstanceId}

/-- The object and the record after an arrival. -/
theorem Fits.arrive {r r' : Round} (h : Fits n b r) (hname : r'.name = r.name)
    (hcap : r'.captured = r.captured) (hcalled : r'.called = insert caller r.called)
    (hdropped : r'.dropped = r.dropped) (had : r'.arrivedDropped = r.arrivedDropped) :
    Fits n (b.arrive caller) r' where
  name := hname.trans h.name
  captured := by
    intro p hp
    rw [hcap] at hp
    have hmem := h.captured hp
    simp only [Barrier.arrive, hcalled, hdropped, Finset.mem_union, Finset.mem_erase,
      Finset.mem_insert] at hmem ⊢
    tauto
  pending_called := by
    rw [hcalled, Finset.disjoint_insert_right]
    refine ⟨Finset.notMem_erase _ _, ?_⟩
    exact h.pending_called.mono_left (Finset.erase_subset _ _)
  arrived_eq := fun hf => by
    rw [hcalled, ← h.arrived_eq (had ▸ hf)]
    rfl

/-- A caller whose arrival leaves nobody pending had not called before. -/
theorem Joined.not_mem_called (hj : Joined s n b r)
    (hlast : (b.arrive caller).processesPending = ∅) : caller ∉ r.called := by
  by_cases hempty : b.processesPending = ∅
  · rw [hj.called_empty hempty]
    exact Finset.notMem_empty _
  · have hmem : caller ∈ b.processesPending := by
      by_contra hc
      rw [Barrier.arrive, Finset.erase_eq_of_notMem hc] at hlast
      exact hempty hlast
    exact Finset.disjoint_left.mp hj.fits.pending_called hmem

theorem Inv.lastArrival (hs : Inv s) (hj : Joined s n b r) {callIid : InstanceId}
    (hlast : (b.arrive caller).processesPending = ∅)
    (hgroup : s'.group = s.group.put n (b.arrive caller)) (hmsg : s'.messages = s.messages +
      (completions ((b.arrive caller).processesArrived.erase caller) b.commonFunctionIid +
        {.completion caller callIid b.commonFunctionIid})) (hrounds : s'.rounds =
      Function.update s.rounds b.commonFunctionIid (some (r.lastArrival caller callIid)))
    (hnext : s'.nextIid = s.nextIid + 2) : Inv s' := by
  have hnot := hj.not_mem_called hlast
  have hfits : Fits n (b.arrive caller) (r.lastArrival caller callIid) :=
    hj.fits.arrive rfl rfl rfl rfl rfl
  have hcomp : ∀ g, s'.completionsOf g = s.completionsOf g +
      if g = b.commonFunctionIid then
        completions ((b.arrive caller).processesArrived.erase caller) b.commonFunctionIid +
          {.completion caller callIid b.commonFunctionIid}
      else 0 := by
    intro g
    rw [completionsOf, hmsg, Multiset.filter_add, Multiset.filter_add, filter_completions,
      Multiset.filter_singleton]
    by_cases hg : g = b.commonFunctionIid
    · simp [hg, Message.round, completionsOf]
    · simp [hg, Message.round, completionsOf, Ne.symm hg]
  have hdef : ∀ p c g, Message.deferral p c g ∈ s'.messages ↔ Message.deferral p c g ∈ s.messages := by
    intro p c g
    rw [hmsg]
    simp [completions]
  refine hs.put hj.name_eq hrounds (hnext ▸ Nat.le_add_right _ _) (fun g hg => ?_)
    (fun p c g _ => hdef p c g) ?_ hgroup rfl ⟨hfits, by simp [Round.lastArrival, hlast]⟩
  · rw [hcomp, if_neg hg, add_zero]
  · exact
      { lt := hnext ▸ hj.lt
        ne_invalid := hj.ne_invalid
        complete_captured := fun _ => by
          have hcap := hfits.captured
          rwa [hlast, Finset.empty_union] at hcap
        called_eq := by
          simp only [Round.lastArrival, hj.called_eq, map_some, toFinset_some]
          rw [Finset.insert_eq, Finset.union_comm]
        last_none := fun h => by cases h
        last_deferred := fun x hx => by
          cases hx
          exact hj.called_eq ▸ hnot
        deferred_iff := fun p => by
          simp only [hdef]
          exact hj.deferred_iff p
        sent_complete := fun _ => rfl
        completions_eq := fun hf => by
          have harr : b.processesArrived = r.deferred := (hj.fits.arrived_eq hf).trans hj.called_eq
          have hnot' : caller ∉ b.processesArrived := by
            rw [harr, ← hj.called_eq]
            exact hnot
          rw [hcomp, if_pos rfl, hj.completions_eq, zero_add, Barrier.arrive,
            Finset.erase_insert hnot', harr]
          rfl }

theorem Inv.deferral (hs : Inv s) (hj : Joined s n b r) {callIid : InstanceId}
    (hpending : (b.arrive caller).processesPending ≠ ∅)
    (hgroup : s'.group = s.group.put n (b.arrive caller))
    (hmsg : s'.messages = s.messages + {.deferral caller callIid b.commonFunctionIid})
    (hrounds : s'.rounds =
      Function.update s.rounds b.commonFunctionIid (some (r.deferral caller)))
    (hnext : s'.nextIid = s.nextIid + 2) : Inv s' := by
  have hfits : Fits n (b.arrive caller) (r.deferral caller) :=
    hj.fits.arrive rfl rfl rfl rfl rfl
  have hcomp : ∀ g, s'.completionsOf g = s.completionsOf g := by
    intro g
    rw [completionsOf, hmsg, Multiset.filter_add, Multiset.filter_singleton]
    simp [Message.round, completionsOf]
  refine hs.put hj.name_eq hrounds (hnext ▸ Nat.le_add_right _ _) (fun g _ => hcomp g)
    (fun p c g hg => ?_) ?_ hgroup rfl ⟨hfits, by simp [Round.deferral, hj.not_complete, hpending]⟩
  · rw [hmsg, Multiset.mem_add, Multiset.mem_singleton]
    refine ⟨fun h => h.resolve_right fun heq => ?_, .inl⟩
    cases heq
    exact hg rfl
  · exact
      { lt := hnext ▸ hj.lt
        ne_invalid := hj.ne_invalid
        complete_captured := fun h => by
          rw [Round.deferral, hj.not_complete] at h
          cases h
        called_eq := by simp [Round.deferral, hj.last_none, hj.called_eq]
        last_none := fun _ => hj.last_none
        last_deferred := fun x hx => by
          rw [Round.deferral, hj.last_none] at hx
          cases hx
        deferred_iff := fun p => by
          simp only [Round.deferral, hmsg, Finset.mem_insert, Multiset.mem_add,
            Multiset.mem_singleton, hj.deferred_iff p, Message.deferral.injEq]
          refine ⟨?_, ?_⟩
          · rintro (rfl | ⟨c, hc⟩)
            · exact ⟨callIid, .inr ⟨rfl, rfl, trivial⟩⟩
            · exact ⟨c, .inl hc⟩
          · rintro ⟨c, hc | ⟨rfl, -, -⟩⟩
            · exact .inr ⟨c, hc⟩
            · exact .inl rfl
        sent_complete := fun h => by
          rw [hcomp, hj.completions_eq] at h
          exact absurd rfl h
        completions_eq := fun hf => by
          rw [hcomp, hj.completions_eq, Round.expected, Round.deferral, hj.not_complete]
          rfl }

theorem Inv.refused (hs : Inv s) (caller callIid : InstanceId) (what : String) :
    Inv (s.tick.refused caller callIid what) := by
  have hmsg : (s.tick.refused caller callIid what).messages =
      s.messages + {.exception caller callIid what} := by
    rw [State.refused, messages_addHandler, outstanding_reply, zero_add, messages_tick]
  refine hs.congr (fun _ _ h => h) rfl (Nat.le_add_right _ _) (fun f => ?_) fun p c f => ?_
  · rw [completionsOf, hmsg, Multiset.filter_add, Multiset.filter_singleton]
    simp [Message.round, completionsOf]
  · rw [hmsg]
    simp

theorem Inv.barrier (hs : Inv s) (caller : InstanceId) (n : String) (modeTag : ℤ) :
    Inv (s.barrier caller n modeTag) := by
  rcases barrier_cases s caller n modeTag with ⟨what, h⟩ | ⟨b, hb, h⟩
  · rw [h]
    exact hs.refused _ _ _
  · rw [h]
    have hj := hs.joined hb
    simp only [arrived]
    split_ifs with hlast
    · refine hs.lastArrival hj hlast rfl ?_ rfl rfl
      rw [messages_addHandler, outstanding_reply, messages_setRound, messages_setGroup, messages_tick]
      rfl
    · refine hs.deferral hj hlast rfl
        (?_ : _ = s.messages + {.deferral caller s.nextIid b.commonFunctionIid}) rfl rfl
      rw [messages_send, messages_setRound, messages_setGroup, messages_tick]
      rfl

end arrivals

/-! ### Drops -/

section drops

variable {s : State} {n : String} {p : InstanceId}

/-- The object and the record after a drop. -/
theorem Fits.leave {b : Barrier} {r : Round} (h : Fits n b r) :
    Fits n (b.leave p) (r.leave b p) where
  name := h.name
  captured := by
    intro q hq
    have hmem := h.captured hq
    simp only [Barrier.leave, Round.leave, Finset.mem_union, Finset.mem_erase] at hmem ⊢
    obtain rfl | hqp := eq_or_ne q p
    · by_cases hpend : q ∈ b.processesPending
      · simp [hpend]
      · simp only [hpend, if_false]
        tauto
    · split_ifs
      · simp only [Finset.mem_insert]
        tauto
      · tauto
  pending_called := h.pending_called.mono_left (Finset.erase_subset _ _)
  arrived_eq := fun hf => by
    simp only [Round.leave, Bool.or_eq_false_iff, decide_eq_false_iff_not] at hf
    rw [Barrier.leave, Finset.erase_eq_of_notMem hf.2]
    exact h.arrived_eq hf.1

/-- The barrier keeps pending processes. -/
theorem Inv.kept (hs : Inv s) {b : Barrier} {r : Round}
    (hr : s.rounds b.commonFunctionIid = some r) (hok : EntryOk n b r)
    (hpending : (b.leave p).processesPending ≠ ∅) :
    Inv ((s.setGroup (s.group.put n (b.leave p))).setRound b.commonFunctionIid (r.leave b p)) := by
  have hopen : r.complete = false := by
    rw [← Bool.not_eq_true, hok.complete_iff]
    intro h0
    rw [Barrier.leave, h0, Finset.erase_empty] at hpending
    exact hpending rfl
  have hround := hs.round _ r hr
  refine hs.put (hok.name_eq hr) rfl le_rfl (fun _ _ => rfl) (fun _ _ _ _ => .rfl)
    { hround with complete_captured := fun h => ?_, completions_eq := fun hf => ?_ } rfl rfl
    ⟨hok.toFits.leave, by simp [Round.leave, hopen, hpending]⟩
  · rw [Round.leave, hopen] at h
    cases h
  · simp only [Round.leave, Bool.or_eq_false_iff] at hf
    exact hround.completions_eq hf.1

/-- The drop completes the round. -/
theorem Inv.completed (hs : Inv s) {s' : State} {b : Barrier} {r : Round}
    {recipients : Finset InstanceId} (hr : s.rounds b.commonFunctionIid = some r)
    (hok : EntryOk n b r) (hempty : (b.leave p).processesPending = ∅)
    (htouched : p ∈ b.processesPending ∨ p ∈ b.processesArrived)
    (hrec : p ∉ b.processesArrived → recipients = (b.leave p).processesArrived)
    (hgroup : s'.group = s.group.erase n)
    (hmsg : s'.messages = s.messages + completions recipients b.commonFunctionIid)
    (hrounds : s'.rounds = Function.update s.rounds b.commonFunctionIid (some
      { r.leave b p with complete := true })) (hnext : s'.nextIid = s.nextIid) : Inv s' := by
  have hround := hs.round _ r hr
  have hcomp : ∀ g, s'.completionsOf g = s.completionsOf g +
      if g = b.commonFunctionIid then completions recipients b.commonFunctionIid else 0 := by
    intro g
    rw [completionsOf, hmsg, Multiset.filter_add, filter_completions]
    rfl
  have hdef : ∀ q c g, Message.deferral q c g ∈ s'.messages ↔ Message.deferral q c g ∈ s.messages := by
    intro q c g
    rw [hmsg]
    simp [completions]
  have hfits : Fits n (b.leave p) (r.leave b p) := hok.toFits.leave
  refine hs.update (hok.name_eq hr) hrounds hnext.ge (fun g hg => ?_) (fun q c g _ => hdef q c g) ?_
    (fun m b' _ h => (ProcessGroup.lookup_erase_eq_some (hgroup ▸ h)).2)
    fun b' h => absurd rfl (ProcessGroup.lookup_erase_eq_some (hgroup ▸ h)).1
  · rw [hcomp, if_neg hg, add_zero]
  · exact { hround with
        lt := hnext ▸ hround.lt
        complete_captured := fun _ => by
          have hcap := hfits.captured
          rwa [hempty, Finset.empty_union] at hcap
        last_none := fun h => by cases h
        deferred_iff := fun q => by
          simp only [hdef]
          exact hround.deferred_iff q
        sent_complete := fun _ => rfl
        completions_eq := fun hf => by
          simp only [Round.leave, Bool.or_eq_false_iff, decide_eq_false_iff_not] at hf
          have hpend : p ∈ b.processesPending := htouched.resolve_right hf.2
          have hopen : r.complete = false := by
            rw [← Bool.not_eq_true, hok.complete_iff]
            exact Finset.ne_empty_of_mem hpend
          have hlast := hround.last_none hopen
          have hdeferred : recipients = r.deferred := by
            rw [hrec hf.2, hfits.arrived_eq (by simp [Round.leave, hf.1, hf.2]), Round.leave,
              hround.called_eq, hlast]
            simp
          have h0 : s.completionsOf b.commonFunctionIid = 0 := by
            rw [hround.completions_eq hf.1, Round.expected, hopen]
            rfl
          rw [hcomp, if_pos rfl, h0, zero_add, hdeferred]
          simp [Round.expected, Round.leave, hlast] }

theorem Inv.dropFromBarrier (hs : Inv s) (p : InstanceId) (scope : BarrierScope) (n : String) :
    Inv (s.dropFromBarrier p scope n) := by
  unfold State.dropFromBarrier
  cases hl : s.group.barriers.lookup n with
  | none => exact hs
  | some b =>
    obtain ⟨r, hr, hok⟩ := hs.entry n b hl
    simp only
    split_ifs with hskip
    · exact hs
    · rcases b.drop_cases p with ⟨-, h⟩ | ⟨hpending, h⟩ | ⟨recipients, hempty, htouched, hrec, h⟩
      · rw [h]
        exact hs
      · rw [h, hr]
        exact hs.kept hr hok hpending
      · rw [h, hr]
        refine hs.completed hr hok hempty htouched hrec rfl ?_ rfl rfl
        have hne : b.commonFunctionIid ≠ invalidInstanceId := (hs.round _ r hr).ne_invalid
        simp only [messages_addHandler, outstanding_none, messages_setRound, messages_setGroup,
          if_neg hne]

theorem Inv.drop (hs : Inv s) (p : InstanceId) (scope : BarrierScope) : Inv (s.drop p scope) := by
  unfold State.drop
  generalize s.group.barriers.keys = names
  induction names generalizing s with
  | nil => exact hs
  | cons n names ih => exact ih (hs.dropFromBarrier p scope n)

end drops

/-! ### Handlers -/

section handlers

variable {s : State} {h h' : Handler}

/-- Steps that only move messages. -/
theorem Inv.of_messages_eq (hs : Inv s) {s' : State}
    (hentry : ∀ n b, s'.group.barriers.lookup n = some b → s.group.barriers.lookup n = some b)
    (hrounds : s'.rounds = s.rounds) (hnext : s'.nextIid = s.nextIid)
    (hmsg : s'.messages = s.messages) : Inv s' :=
  hs.congr hentry hrounds hnext.ge (fun f => by rw [completionsOf, hmsg, completionsOf])
    fun _ _ _ => by rw [hmsg]

theorem lookup_closeRound {g : ProcessGroup} {n m : String} {object : ℕ} {iid : InstanceId}
    {b : Barrier} (h : (g.closeRound n object iid).barriers.lookup m = some b) :
    g.barriers.lookup m = some b := by
  unfold ProcessGroup.closeRound at h
  split at h
  · split_ifs at h
    · exact (ProcessGroup.lookup_erase_eq_some h).2
    · exact h
  · exact h

theorem Inv.closeRound (hs : Inv s) {s' : State} (hstep : s.closeRound h = some s') : Inv s' := by
  unfold State.closeRound at hstep
  split at hstep
  · split_ifs at hstep with hh
    cases hstep
    refine hs.of_messages_eq (fun m b hl => lookup_closeRound hl) rfl rfl ?_
    have hmsg := messages_replaceHandler hh { h with closing := none }
    exact add_right_cancel hmsg
  · cases hstep

/-- Writing a message moves it from the outstanding ones to those sent. -/
theorem messages_write {m : Message} (hh : h ∈ s.handlers)
    (hout : h.outstanding = h'.outstanding + {m}) :
    ((s.send m).replaceHandler h h').messages = s.messages := by
  have hmsg := messages_replaceHandler (s := s.send m) hh h'
  rw [messages_send, hout, add_right_comm, ← add_assoc, add_right_cancel_iff] at hmsg
  exact add_right_cancel hmsg

theorem Inv.write (hs : Inv s) {s' : State} {m : Message} (hstep : s.write h m = some s') :
    Inv s' := by
  unfold State.write at hstep
  split_ifs at hstep with hh hm hm <;> cases hstep
  all_goals refine hs.of_messages_eq (fun _ _ hl => hl) rfl rfl (messages_write hh.1 ?_)
  · simp only [Handler.outstanding]
    rw [add_right_comm, add_comm (h.queue.erase m), Multiset.singleton_add, Multiset.cons_erase hm]
  · simp [Handler.outstanding, hm.1, hm.2]

end handlers

/-! ### Every reachable state -/

theorem Inv.step {s' : State} {a : Action} (hs : Inv s) (h : s.step a = some s') : Inv s' := by
  cases a with
  | barrier caller n modeTag =>
    cases h
    exact hs.barrier caller n modeTag
  | closeRound _ => exact hs.closeRound h
  | write _ m => exact hs.write h
  | drop p scope =>
    cases h
    exact hs.drop p scope
  | setDraining p b | setInCollectiveShutdown p b | setMembers ids =>
    cases h
    exact hs.of_messages_eq (fun _ _ hl => hl) rfl rfl rfl

/-- The invariant holds in every state the barriers of a group can reach. -/
theorem reachable_inv (h : machine.Reachable s) : Inv s := by
  refine h.invariant (fun s hs => ?_) fun s a s' hs hstep => hs.step hstep
  rw [show s = initial from hs]
  exact Inv.initial

end Sintra.Process.Barriers
