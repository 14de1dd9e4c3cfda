import Sintra.Messaging.EventHandlers
import Sintra.Messaging.StarInvariant

/-!
# Delivery of events

An event goes through the coordinator's ring, where every process finds it: what a leaf sends is
relayed there, and nobody dispatches what it reads elsewhere.
-/

namespace Sintra.Messaging

open Machine

variable {ι : Type} [DecidableEq ι]

/-- The event handlers are called. -/
def RequestAction.isDispatch : RequestAction → Bool
  | .dispatch _ => true
  | _ => false

/-- The receiver of an interprocess event. -/
def Interprocess (receiver : InstanceId) : Prop :=
  receiver = anyRemote ∨ receiver = anyLocalOrRemote

theorem Interprocess.not_local {receiver : InstanceId} (h : Interprocess receiver) {me : ℕ}
    (hme : ProcessIndex me) : isLocalInstance me receiver = false := by
  rcases h with h | h
  · rw [h]
    exact isLocalInstance_anyRemote hme
  · rw [h]
    exact isLocalInstance_anyLocalOrRemote hme

theorem Interprocess.anyRemote_le {receiver : InstanceId} (h : Interprocess receiver) :
    anyRemote ≤ receiver := by
  rcases h with h | h
  · rw [h]
    exact anyRemote_le_anyRemote
  · rw [h]
    exact anyRemote_le_anyLocalOrRemote

/-- How often the reader of process `q` for the ring of `r` has dispatched an event. -/
def State.dispatches (s : State ι) (q r : Proc ι) (o : Origin ι) : ℕ :=
  s.requestHub.times Frame.origin RequestAction.isDispatch q r o

/-- What the reader has dispatched, in order. -/
def State.dispatched (s : State ι) (q r : Proc ι) : List (Frame ι) :=
  ((s.requestLog q r).filter fun e => e.2.isDispatch).map Prod.fst

namespace Star

variable {S : Star ι} {s : State ι} {p q r : Proc ι} {f : Frame ι} {m : Message} {target : Target}

/-! ### What the readers do with events -/

/-- The coordinator's process relays the events of a leaf. -/
theorem requestAction_event_leaf {i : ι} (hsent : S.Sent (.leaf i) m)
    (hevent : Interprocess m.receiver) :
    S.requestAction .coordinator (.leaf i) m target = .relay := by
  have hlocal := hevent.not_local (S.processIndex .coordinator)
  simp [requestAction, requestReaderFunction, hsent.validate_own, hlocal, hevent.anyRemote_le]

/-- In the coordinator's ring an event is dispatched by everybody it is for. -/
theorem requestAction_event_coordinator (hsent : S.Sent p m) (hevent : Interprocess m.receiver) :
    S.requestAction q .coordinator m target =
      if m.receiver = anyRemote ∧ q = p then .ignore
      else .dispatch [m.sender, anyRemote, anyLocalOrRemote] := by
  have hlocal := hevent.not_local (S.processIndex q)
  have hreading : (q = .coordinator && !(decide (Proc.coordinator = q))) = false := by
    by_cases hq : q = .coordinator
    · simp [hq]
    · simp [hq]
  simp only [requestAction, requestReaderFunction, hsent.validate_coordinator, hlocal,
    hevent.anyRemote_le, hsent.isLocal_sender, index_inj, hreading]
  by_cases hskip : m.receiver = anyRemote ∧ q = p
  · simp [hskip]
  · rw [if_neg hskip]
    simpa using not_and.1 hskip

variable {scopeIds : List InstanceId}

/-- Events are dispatched by the readers of the coordinator's ring only, and local ones only in the
coordinator's process. -/
theorem requestAction_dispatch (hreads : Reads q r)
    (h : S.requestAction q r m target = .dispatch scopeIds) :
    r = .coordinator ∧
      (m.receiver = anyLocal ∧ q = .coordinator ∧
          scopeIds = [m.sender, anyLocal, anyLocalOrRemote] ∨
        ¬(m.receiver = anyRemote ∧ isLocal (S.index q) m.sender = true) ∧
          m.receiver ≠ anyLocal ∧ scopeIds = [m.sender, anyRemote, anyLocalOrRemote]) := by
  by_cases hr : r = .coordinator
  · refine ⟨hr, ?_⟩
    subst hr
    simp only [requestAction, requestReaderFunction] at h
    split_ifs at h with hvalid hinstance hany hsame _ _ _ hremote hdispatch
    · have hq : .coordinator = q := by simpa using hsame
      exact .inl ⟨hany, hq.symm, (RequestAction.dispatch.inj h).symm⟩
    · refine .inr ⟨?_, ?_, (RequestAction.dispatch.inj h).symm⟩
      · rintro ⟨hany, hsender⟩
        simp [hany, hsender] at hdispatch
      · intro hany
        rw [hany, isLocalInstance_anyLocal] at hinstance
        exact hinstance rfl
  · obtain rfl : q = .coordinator := hreads.resolve_right hr
    simp [requestAction, requestReaderFunction, hr] at h
    split_ifs at h

omit [DecidableEq ι] in
/-- Local events are not relayed. -/
theorem requestAction_local (hreceiver : m.receiver = anyLocal) :
    S.requestAction q r m target ≠ .relay := by
  intro h
  simp only [requestAction, requestReaderFunction, hreceiver, isLocalInstance_anyLocal, if_true] at h
  split_ifs at h

/-! ### Dispatch is done by the readers of the coordinator's ring -/

theorem Inv.not_dispatch (h : S.Inv s) {i : ι} {act : RequestAction}
    (hmem : (f, act) ∈ s.requestLog q (.leaf i)) : act.isDispatch = false := by
  obtain ⟨hreads, target, hact⟩ := h.requestActs hmem
  cases act with
  | dispatch scopeIds =>
    obtain ⟨hr, -⟩ := requestAction_dispatch hreads hact
    cases hr
  | _ => rfl

theorem relays_of_isDispatch (act : RequestAction) (h : act.isDispatch = true) :
    decide (act = .relay) = false := by
  cases act with
  | dispatch scopeIds => rfl
  | _ => cases h

/-- An event that a process has dispatched was dispatched there once. -/
theorem Inv.once_dispatched (h : S.Inv s) (hmem : (f, .dispatch scopeIds) ∈ s.requestLog q r) :
    Hub.Once fun r => s.dispatches q r f.origin :=
  h.requests.once (fun _ _ => rfl) h.request_reads relays_of_isDispatch hmem rfl

theorem Inv.never_dispatched (h : S.Inv s) {o : Origin ι}
    (hzero : s.dispatches q .coordinator o = 0) : Hub.Never fun r => s.dispatches q r o := by
  intro r
  cases r with
  | coordinator => exact hzero
  | leaf i => exact Hub.times_eq_zero fun f act hmem _ => h.not_dispatch hmem

theorem Inv.dispatched_leaf (h : S.Inv s) (q : Proc ι) (i : ι) : s.dispatched q (.leaf i) = [] := by
  rw [State.dispatched, List.map_eq_nil_iff, List.filter_eq_nil_iff]
  rintro ⟨f, act⟩ hmem
  simp [h.not_dispatch hmem]

omit [DecidableEq ι] in
theorem mem_of_mem_dispatched (hf : f ∈ s.dispatched q r) : ∃ act, (f, act) ∈ s.requestLog q r := by
  obtain ⟨⟨g, act⟩, hmem, rfl⟩ := List.mem_map.1 hf
  exact ⟨act, (List.mem_filter.1 hmem).1⟩

/-- Events are dispatched in the order in which they are in the coordinator's ring. -/
theorem Inv.fifo_dispatched (h : S.Inv s) (q : Proc ι) :
    (s.dispatched q .coordinator).Pairwise fun g g' =>
      g.origin.1 = g'.origin.1 → g.origin.2 < g'.origin.2 := by
  have hlog := (h.requests.fifo fun _ _ => rfl).sublist (h.requests.taken q .coordinator).sublist
  exact hlog.sublist (List.filter_sublist.map Prod.fst)

/-! ### Events to other processes -/

section

variable (h : S.machine.ReachableUnder Genuine s) (hread : s.RequestsRead) (hf : f ∈ s.requests p)
  (hown : f.origin.1 = p) (hevent : Interprocess f.msg.receiver)

include h hread hf hown hevent

/-- What the reader of the coordinator's ring has done with an event in the end. -/
theorem event_taken (q : Proc ι) : ∃ g, g.origin = f.origin ∧
    (g, if f.msg.receiver = anyRemote ∧ q = p then .ignore
      else .dispatch [f.msg.sender, anyRemote, anyLocalOrRemote]) ∈ s.requestLog q .coordinator := by
  have hinv := reachable_inv h.reachable
  have hsent := reachable_sent h
  have hrelay : ∀ target, p ≠ .coordinator →
      S.requestAction .coordinator p f.msg target = .relay := by
    intro target hp
    cases p with
    | coordinator => exact absurd rfl hp
    | leaf i => exact requestAction_event_leaf (hown ▸ hsent _ f hf trivial) hevent
  obtain ⟨g, hg, ho, hmsg⟩ := hinv.exists_copy hread hf hown hrelay
  have hsender : g.msg.sender = f.msg.sender := Message.sender_eq hmsg
  have hreceiver : g.msg.receiver = f.msg.receiver := Message.receiver_eq hmsg
  obtain ⟨act, hlog⟩ := hinv.requests.exists_mem_log (hread q .coordinator (.inr rfl)) hg
  obtain ⟨-, target, rfl⟩ := hinv.requestActs hlog
  have hgsent : S.Sent p g.msg := by
    have hgs := hsent _ g hg trivial
    rw [ho, hown] at hgs
    exact hgs
  rw [← hreceiver] at hevent
  rw [requestAction_event_coordinator hgsent hevent, hsender, hreceiver] at hlog
  exact ⟨g, ho, hlog⟩

theorem event_once (hq : ¬(f.msg.receiver = anyRemote ∧ q = p)) :
    Hub.Once fun r => s.dispatches q r f.origin := by
  have hinv := reachable_inv h.reachable
  obtain ⟨g, ho, hlog⟩ := event_taken h hread hf hown hevent q
  rw [if_neg hq] at hlog
  rw [← ho]
  exact hinv.once_dispatched hlog

theorem event_never (hq : f.msg.receiver = anyRemote ∧ q = p) :
    Hub.Never fun r => s.dispatches q r f.origin := by
  have hinv := reachable_inv h.reachable
  obtain ⟨g, ho, hlog⟩ := event_taken h hread hf hown hevent q
  rw [if_pos hq] at hlog
  rw [← ho]
  exact hinv.never_dispatched (hinv.requests.times_eq_zero_of_mem (fun _ _ => rfl) hlog rfl)

end

/-- **Delivery of interprocess events.** Once all requests have been read, an event has been dispatched
once in every process other than its own, and there if and only if it was sent to `any_local_or_remote`.
What is dispatched is what was sent. At all times, the events of one process have been dispatched in the
order in which it has sent them, and nothing is relayed twice. -/
theorem events_delivered (h : S.machine.ReachableUnder Genuine s) :
    (s.RequestsRead → ∀ p n f, (s.requests p)[n]? = some f → f.origin = (p, n) →
      Interprocess f.msg.receiver →
        (∀ q, q ≠ p → Hub.Once fun r => s.dispatches q r (p, n)) ∧
        (f.msg.receiver = anyLocalOrRemote → Hub.Once fun r => s.dispatches p r (p, n)) ∧
        (f.msg.receiver = anyRemote → Hub.Never fun r => s.dispatches p r (p, n)) ∧
        ∀ q r, ∀ g ∈ s.dispatched q r, g.origin = (p, n) → g.msg.unstamped = f.msg.unstamped) ∧
    (∀ q, (s.dispatched q .coordinator).Pairwise fun g g' =>
      g.origin.1 = g'.origin.1 → g.origin.2 < g'.origin.2) ∧
    (∀ q i, s.dispatched q (.leaf i) = []) ∧
    ((s.requests .coordinator).map Frame.origin).Nodup := by
  have hinv := reachable_inv h.reachable
  refine ⟨?_, hinv.fifo_dispatched, hinv.dispatched_leaf, hinv.requests.nodup fun _ _ => rfl⟩
  intro hread p n f hf ho hevent
  have hmem : f ∈ s.requests p := List.mem_of_getElem? hf
  have hown : f.origin.1 = p := by rw [ho]
  rw [← ho]
  refine ⟨?_, ?_, ?_, ?_⟩
  · intro q hq
    exact event_once h hread hmem hown hevent fun hskip => hq hskip.2
  · intro hall
    refine event_once h hread hmem hown hevent ?_
    rw [hall]
    exact fun hskip => absurd hskip.1 (by decide)
  · intro hremote
    exact event_never h hread hmem hown hevent ⟨hremote, rfl⟩
  · intro q r g hg hgo
    obtain ⟨act, hlog⟩ := mem_of_mem_dispatched hg
    exact hinv.unstamped_eq hmem hown (hinv.requests.mem_log hlog) hgo

/-- One of the leaves sends an event to all other processes. -/
def remoteEvent : List (Action (Fin 2)) :=
  [.send (.leaf 0) 5 anyRemote 100 0, .readRequest .coordinator (.leaf 0) ⟨false, false⟩,
    .readRequest .coordinator .coordinator ⟨false, false⟩,
    .readRequest (.leaf 0) .coordinator ⟨false, false⟩,
    .readRequest (.leaf 1) .coordinator ⟨false, false⟩]

theorem events_delivered_remote : ∃ s : State (Fin 2),
    Star.twoLeaves.machine.ReachableUnder Genuine s ∧ s.RequestsRead ∧
    s.requests (.leaf 0) = [⟨⟨⟨3, 5⟩, anyRemote, 100, 0, 0, 0⟩, (.leaf 0, 0), none⟩] ∧
    (Hub.Once fun r => s.dispatches (.leaf 1) r (.leaf 0, 0)) ∧
    Hub.Never fun r => s.dispatches (.leaf 0) r (.leaf 0, 0) := by
  obtain ⟨s, hs, hread, hring⟩ : ∃ s : State (Fin 2),
      Star.twoLeaves.machine.ReachableUnder Genuine s ∧ s.RequestsRead ∧
      s.requests (.leaf 0) = [⟨⟨⟨3, 5⟩, anyRemote, 100, 0, 0, 0⟩, (.leaf 0, 0), none⟩] :=
    exists_reachableUnder_of_exec remoteEvent rfl (by decide +kernel)
  obtain ⟨hothers, -, hself, -⟩ := (events_delivered hs).1 hread (.leaf 0) 0 _
    (by rw [hring]; rfl) rfl (.inl rfl)
  exact ⟨s, hs, hread, hring, hothers (.leaf 1) (by decide), hself rfl⟩

/-! ### Handlers -/

/-- A handler is invoked as it should be if and only if its scope is searched as it should be. -/
theorem invoked_iff {a b : Prop} [Decidable a] [Decidable b] :
    ((if a then 1 else 0) = if b then 1 else 0) ↔ (a ↔ b) := by
  split_ifs with ha hb hb
  all_goals simp [ha, hb]

/-- The scopes of a dispatch are those that match the sender, unless a process hears an event of its own
that is not a local one: then they are not for `any_local` and for `any_remote`. -/
theorem count_dispatched (hsender : ProcessIndex m.sender.process)
    (hreads : Reads q r) (hsame : q = .coordinator → m.receiver = anyLocal →
      m.sender.process = S.index q) (hact : S.requestAction q r m target = .dispatch scopeIds)
    {T : HandlerTable} {t : TypeId} {slot : Slot} {sid : InstanceId}
    (hslot : slot ∈ T.handlers t sid) {active : Slot → Bool} (hactive : active slot = true) :
    (dispatchEventHandlers T t scopeIds active).count slot =
        (if Matches (S.index q) m.sender sid then 1 else 0) ↔
      m.receiver = anyLocal ∨ m.receiver = anyRemote ∨ m.sender.process ≠ S.index q ∨
        sid ≠ anyLocal ∧ sid ≠ anyRemote := by
  obtain ⟨-, hscopes⟩ := requestAction_dispatch hreads hact
  rcases hscopes with ⟨hlocal, hq, rfl⟩ | ⟨hskip, hnot, rfl⟩
  · rw [count_dispatchEventHandlers hslot (nodup_scopes_local hsender) hactive, invoked_iff]
    exact iff_of_true (mem_scopes_local hsender (hsame hq hlocal)) (.inl hlocal)
  · rw [isLocal_eq hsender, isLocalInstance_iff hsender] at hskip
    rw [count_dispatchEventHandlers hslot (nodup_scopes_remote hsender) hactive, invoked_iff,
      mem_scopes_remote hsender]
    constructor
    · exact fun h => .inr (.inr h)
    · rintro (hlocal | hremote | h)
      · exact absurd hlocal hnot
      · exact .inl fun heq => hskip ⟨hremote, heq⟩
      · exact h

/-- A local event in the coordinator's ring is one of its own. -/
theorem Inv.local_own (h : S.Inv s) (hf : f ∈ s.requests .coordinator)
    (hreceiver : f.msg.receiver = anyLocal) : f.origin.1 = .coordinator := by
  cases hp : f.origin.1 with
  | coordinator => rfl
  | leaf i =>
    obtain ⟨g, hlog, rfl, -⟩ := h.relayed_request hf hp
    obtain ⟨-, target, hact⟩ := h.requestActs hlog
    exact absurd hact (requestAction_local hreceiver)

/-- **Sender scopes.** For every event that is dispatched in a process, a handler for it that is
registered for a scope is invoked once if the sender matches the scope, and not at all otherwise, if and
only if the event was not sent to `any_local_or_remote` by the process itself, or the scope is neither
`any_local` nor `any_remote`. -/
theorem handlers_match (h : S.machine.Reachable s) {scopeIds : List InstanceId}
    (hmem : (f, .dispatch scopeIds) ∈ s.requestLog q r)
    (T : HandlerTable) (slot : Slot) (sid : InstanceId) (hslot : slot ∈ T.handlers f.msg.typeId sid)
    (active : Slot → Bool) (hactive : active slot = true) :
    (dispatchEventHandlers T f.msg.typeId scopeIds active).count slot =
        (if Matches (S.index q) f.msg.sender sid then 1 else 0) ↔
      f.msg.receiver = anyLocal ∨ f.msg.receiver = anyRemote ∨ f.msg.sender.process ≠ S.index q ∨
        sid ≠ anyLocal ∧ sid ≠ anyRemote := by
  have hinv := reachable_inv h
  obtain ⟨hreads, target, hact⟩ := hinv.requestActs hmem
  obtain ⟨rfl, -⟩ := requestAction_dispatch hreads hact
  have hring : f ∈ s.requests .coordinator := hinv.requests.mem_log hmem
  have hsender := sender_of_mem h hring
  have hprocess : ProcessIndex f.msg.sender.process := by
    rw [hsender]
    exact S.processIndex _
  refine count_dispatched hprocess hreads ?_ hact hslot hactive
  intro hq hlocal
  rw [hsender, hinv.local_own hring hlocal, hq]

/-- A table with one handler, for one scope. -/
def oneHandler (scope : InstanceId) : HandlerTable :=
  HandlerTable.empty.activate 0 (fun _ _ => List.not_mem_nil) 100 false false scope

/-- A leaf hears an event of another one with a handler for remote senders. -/
theorem handlers_match_remote : ∃ s : State (Fin 2), Star.twoLeaves.machine.Reachable s ∧
    ∃ f scopeIds, (f, .dispatch scopeIds) ∈ s.requestLog (.leaf 1) .coordinator ∧
      f.msg.typeId = 100 ∧
      (dispatchEventHandlers (oneHandler anyRemote) 100 scopeIds fun _ => true).count 0 = 1 := by
  obtain ⟨s, hs, hlog⟩ : ∃ s : State (Fin 2), Star.twoLeaves.machine.Reachable s ∧
      s.requestLog (.leaf 1) .coordinator =
        [(⟨⟨⟨3, 5⟩, anyRemote, 100, 0, 10, 1⟩, (.leaf 0, 0), none⟩,
          .dispatch [⟨3, 5⟩, anyRemote, anyLocalOrRemote])] :=
    exists_reachableUnder_of_exec remoteEvent rfl (by decide +kernel)
  have hmem := List.mem_of_mem_head? (by rw [hlog]; rfl :
    _ ∈ (s.requestLog (.leaf 1) .coordinator).head?)
  have hcount := handlers_match hs hmem (oneHandler anyRemote) 0 anyRemote (by decide) (fun _ => true)
    rfl
  exact ⟨s, hs, _, _, hmem, rfl, hcount.2 (.inr (.inl rfl))⟩

/-- The coordinator's process sends an event to everybody: of its own handlers, the one for local senders
is not invoked, and the one for remote senders is. -/
theorem world_event_not_local : ∃ s : State (Fin 2), Star.twoLeaves.machine.Reachable s ∧
    ∃ f scopeIds, (f, .dispatch scopeIds) ∈ s.requestLog .coordinator .coordinator ∧
      f.msg.typeId = 100 ∧ f.msg.sender.process = Star.twoLeaves.index .coordinator ∧
      dispatchEventHandlers (oneHandler anyLocal) 100 scopeIds (fun _ => true) = [] ∧
      dispatchEventHandlers (oneHandler anyRemote) 100 scopeIds (fun _ => true) = [0] := by
  obtain ⟨s, hs, hmem⟩ : ∃ s : State (Fin 2), Star.twoLeaves.machine.Reachable s ∧
      s.requestLog .coordinator .coordinator =
        [(⟨⟨⟨2, 5⟩, anyLocalOrRemote, 100, 0, 0, 0⟩, (.coordinator, 0), none⟩,
          .dispatch [⟨2, 5⟩, anyRemote, anyLocalOrRemote])] :=
    exists_reachableUnder_of_exec
      [.send .coordinator 5 anyLocalOrRemote 100 0,
        .readRequest .coordinator .coordinator ⟨false, false⟩] rfl (by decide +kernel)
  exact ⟨s, hs, _, _, by rw [hmem]; exact .head _, rfl, rfl, by decide, by decide⟩

/-! ### Local events -/

/-- What the readers of the coordinator's ring do with a local event of the coordinator's process. -/
theorem requestAction_local_event (hsent : S.Sent .coordinator m) (hreceiver : m.receiver = anyLocal) :
    S.requestAction q .coordinator m target =
      if q = .coordinator then .dispatch [m.sender, anyLocal, anyLocalOrRemote] else .ignore := by
  simp only [requestAction, requestReaderFunction, hsent.validate_coordinator, hreceiver,
    isLocalInstance_anyLocal, index_inj]
  by_cases hq : q = .coordinator
  · simp [hq]
  · simp [hq, Ne.symm hq]

/-- The local event of a leaf is dispatched nowhere. -/
theorem Inv.local_lost (h : S.Inv s) {i : ι} (hf : f ∈ s.requests (.leaf i))
    (hown : f.origin.1 = .leaf i) (hreceiver : f.msg.receiver = anyLocal) (q : Proc ι) :
    Hub.Never fun r => s.dispatches q r f.origin := by
  refine h.never_dispatched (Hub.times_eq_zero ?_)
  intro g act hmem ho
  have hring : g ∈ s.requests .coordinator := h.requests.mem_log hmem
  have hmsg := h.unstamped_eq hf hown hring ho
  have hcoordinator := h.local_own hring ((Message.receiver_eq hmsg).trans hreceiver)
  rw [ho, hown] at hcoordinator
  cases hcoordinator

/-- **Delivery of local events.** Once all requests have been read, an event to `any_local` has been
dispatched once to the handlers of the sending process that match its sender, and in no other process,
if and only if the sending process is that of the coordinator. -/
theorem local_events_delivered (h : S.machine.ReachableUnder Genuine s) (hread : s.RequestsRead)
    {n : ℕ} (hf : (s.requests p)[n]? = some f) (ho : f.origin = (p, n))
    (hreceiver : f.msg.receiver = anyLocal) :
    ((Hub.Once fun r => s.dispatches p r (p, n)) ∧
      (∃ r scopeIds, (f, .dispatch scopeIds) ∈ s.requestLog p r ∧
        ∀ (T : HandlerTable) (slot : Slot) (sid : InstanceId), slot ∈ T.handlers f.msg.typeId sid →
          ∀ active : Slot → Bool, active slot = true →
            (dispatchEventHandlers T f.msg.typeId scopeIds active).count slot =
              if Matches (S.index p) f.msg.sender sid then 1 else 0) ∧
      ∀ q, q ≠ p → Hub.Never fun r => s.dispatches q r (p, n)) ↔ p = .coordinator := by
  have hinv := reachable_inv h.reachable
  have hmem : f ∈ s.requests p := List.mem_of_getElem? hf
  have hown : f.origin.1 = p := by rw [ho]
  rw [← ho]
  constructor
  · rintro ⟨⟨r, hone, -⟩, -⟩
    cases p with
    | coordinator => rfl
    | leaf i =>
      have hzero := hinv.local_lost hmem hown hreceiver (.leaf i) r
      exact absurd (hone.symm.trans hzero) one_ne_zero
  · rintro rfl
    have hsent : S.Sent .coordinator f.msg := hown ▸ reachable_sent h _ f hmem trivial
    have htaken : ∀ q, (f, if q = .coordinator then
        .dispatch [f.msg.sender, anyLocal, anyLocalOrRemote] else .ignore) ∈
          s.requestLog q .coordinator := by
      intro q
      obtain ⟨act, hlog⟩ := hinv.requests.exists_mem_log (hread q .coordinator (.inr rfl)) hmem
      obtain ⟨-, target, rfl⟩ := hinv.requestActs hlog
      rw [requestAction_local_event hsent hreceiver] at hlog
      exact hlog
    have hdispatch := htaken .coordinator
    refine ⟨?_, ⟨.coordinator, _, hdispatch, ?_⟩, ?_⟩
    · exact hinv.once_dispatched hdispatch
    · intro T slot sid hslot active hactive
      have hprocess : ProcessIndex f.msg.sender.process := by
        rw [hsent.sender]
        exact S.processIndex _
      obtain ⟨-, target, hact⟩ := hinv.requestActs hdispatch
      exact (count_dispatched hprocess (.inl rfl) (fun _ _ => hsent.sender) hact hslot hactive).2
        (.inl hreceiver)
    · intro q hq
      have hignore := htaken q
      rw [if_neg hq] at hignore
      exact hinv.never_dispatched (hinv.requests.times_eq_zero_of_mem (fun _ _ => rfl) hignore rfl)

/-- The coordinator's process sends a local event, and everybody reads it. -/
theorem local_events_delivered_coordinator : ∃ s : State (Fin 2),
    Star.twoLeaves.machine.ReachableUnder Genuine s ∧ s.RequestsRead ∧
    s.requests .coordinator = [⟨⟨⟨2, 5⟩, anyLocal, 100, 0, 0, 0⟩, (.coordinator, 0), none⟩] ∧
    (Hub.Once fun r => s.dispatches .coordinator r (.coordinator, 0)) ∧
    Hub.Never fun r => s.dispatches (.leaf 1) r (.coordinator, 0) := by
  obtain ⟨s, hs, hread, hring⟩ : ∃ s : State (Fin 2),
      Star.twoLeaves.machine.ReachableUnder Genuine s ∧ s.RequestsRead ∧
      s.requests .coordinator = [⟨⟨⟨2, 5⟩, anyLocal, 100, 0, 0, 0⟩, (.coordinator, 0), none⟩] :=
    exists_reachableUnder_of_exec
      [.send .coordinator 5 anyLocal 100 0, .readRequest .coordinator .coordinator ⟨false, false⟩,
        .readRequest (.leaf 0) .coordinator ⟨false, false⟩,
        .readRequest (.leaf 1) .coordinator ⟨false, false⟩] rfl (by decide +kernel)
  obtain ⟨honce, -, hnever⟩ :=
    (local_events_delivered hs hread (n := 0) (by rw [hring]; rfl) rfl rfl).2 rfl
  exact ⟨s, hs, hread, hring, honce, hnever (.leaf 1) (by decide)⟩

/-- A leaf sends a local event. The coordinator's process reads it and does nothing, and the leaf does
not read its own ring. -/
theorem leaf_local_event_lost : ∃ s : State (Fin 2),
    Star.twoLeaves.machine.ReachableUnder Genuine s ∧ s.RequestsRead ∧
    s.requests (.leaf 0) = [⟨⟨⟨3, 5⟩, anyLocal, 100, 0, 0, 0⟩, (.leaf 0, 0), none⟩] ∧
    ∀ q, Hub.Never fun r => s.dispatches q r (.leaf 0, 0) := by
  obtain ⟨s, hs, hread, hring, hnever⟩ : ∃ s : State (Fin 2),
      Star.twoLeaves.machine.ReachableUnder Genuine s ∧ s.RequestsRead ∧
      s.requests (.leaf 0) = [⟨⟨⟨3, 5⟩, anyLocal, 100, 0, 0, 0⟩, (.leaf 0, 0), none⟩] ∧
      ∀ q r, s.dispatches q r (.leaf 0, 0) = 0 :=
    exists_reachableUnder_of_exec
      [.send (.leaf 0) 5 anyLocal 100 0, .readRequest .coordinator (.leaf 0) ⟨false, false⟩] rfl
      (by decide +kernel)
  exact ⟨s, hs, hread, hring, hnever⟩

end Star

end Sintra.Messaging
