import Sintra.Messaging.InstanceIds

/-!
# Event handlers

The handlers of a process are kept in lists, one for each message type and sender scope. A handler is
in one list, in one place (`HandlerTable`). To dispatch an event, its handlers are collected scope by
scope under the mutex and then invoked one after the other, unless they have been deactivated.
-/

namespace Sintra.Messaging

/-- A handler, by the address of its slot. -/
abbrev Slot := ℕ

abbrev TypeId := ℕ

/-- `m_active_handlers`. Source: `managed_process.h` -/
structure HandlerTable where
  handlers : TypeId → InstanceId → List Slot
  nodup : ∀ t sid, (handlers t sid).Nodup
  unique : ∀ {t t' sid sid' slot}, slot ∈ handlers t sid → slot ∈ handlers t' sid' →
    t = t' ∧ sid = sid'

namespace HandlerTable

def empty : HandlerTable where
  handlers _ _ := []
  nodup _ _ := List.nodup_nil
  unique h := by cases h

/-- The handler is in no list. -/
def Fresh (T : HandlerTable) (slot : Slot) : Prop := ∀ t sid, slot ∉ T.handlers t sid

/-- The list a handler is registered in: in the process of the coordinator, a handler for remote senders
of a message that the coordinator exports hears its own process too. -/
def effectiveSenderId (coordinatorLocal exportedByCoordinator : Bool) (senderId : InstanceId) :
    InstanceId :=
  if senderId = anyRemote && coordinatorLocal && exportedByCoordinator then anyLocalOrRemote
  else senderId

/-- A handler is put at the end of a list. -/
def insert (T : HandlerTable) (slot : Slot) (hfresh : T.Fresh slot) (t : TypeId)
    (effective : InstanceId) : HandlerTable where
  handlers t' sid := if t' = t ∧ sid = effective then T.handlers t' sid ++ [slot] else T.handlers t' sid
  nodup t' sid := by
    split_ifs
    · exact (T.nodup t' sid).append (List.nodup_singleton slot)
        (List.disjoint_singleton.2 (hfresh t' sid))
    · exact T.nodup t' sid
  unique := by
    intro t₁ t₂ sid₁ sid₂ x h₁ h₂
    split_ifs at h₁ h₂ with c₁ c₂ c₂
    · exact ⟨c₁.1.trans c₂.1.symm, c₁.2.trans c₂.2.symm⟩
    · rcases List.mem_append.1 h₁ with h | h
      · exact T.unique h h₂
      · obtain rfl := List.mem_singleton.1 h
        exact absurd h₂ (hfresh t₂ sid₂)
    · rcases List.mem_append.1 h₂ with h | h
      · exact T.unique h₁ h
      · obtain rfl := List.mem_singleton.1 h
        exact absurd h₁ (hfresh t₁ sid₁)
    · exact T.unique h₁ h₂

/-- Source: `transceiver_impl.h`, `activate_impl` -/
def activate (T : HandlerTable) (slot : Slot) (hfresh : T.Fresh slot) (t : TypeId)
    (coordinatorLocal exportedByCoordinator : Bool) (senderId : InstanceId) : HandlerTable :=
  T.insert slot hfresh t (effectiveSenderId coordinatorLocal exportedByCoordinator senderId)

/-- A handler is taken out of its list. Source: `transceiver_impl.h`, `activate_impl` -/
def deactivate (T : HandlerTable) (slot : Slot) (t : TypeId) (effective : InstanceId) :
    HandlerTable where
  handlers t' sid :=
    if t' = t ∧ sid = effective then (T.handlers t' sid).erase slot else T.handlers t' sid
  nodup t' sid := by
    split_ifs
    · exact (T.nodup t' sid).erase slot
    · exact T.nodup t' sid
  unique := by
    have hmem : ∀ {t' sid x}, x ∈ (if t' = t ∧ sid = effective then (T.handlers t' sid).erase slot
        else T.handlers t' sid) → x ∈ T.handlers t' sid := by
      intro t' sid x hx
      split_ifs at hx
      · exact List.mem_of_mem_erase hx
      · exact hx
    intro t₁ t₂ sid₁ sid₂ x h₁ h₂
    exact T.unique (hmem h₁) (hmem h₂)

end HandlerTable

/-- The handlers that are collected for an event. -/
def collect (T : HandlerTable) (t : TypeId) (scopeIds : List InstanceId) : List Slot :=
  scopeIds.flatMap (T.handlers t)

/-- The handlers that are invoked; `active` is what is found when it is a handler's turn.
Source: `process_message_reader_impl.h`, `dispatch_event_handlers` -/
def dispatchEventHandlers (T : HandlerTable) (t : TypeId) (scopeIds : List InstanceId)
    (active : Slot → Bool) : List Slot :=
  (collect T t scopeIds).filter active

/-- The senders that a handler is registered for: a sender in the process with index `me`, one in another
process, anybody, or one instance. -/
def Matches (me : ℕ) (sender scope : InstanceId) : Prop :=
  if scope = anyLocal then sender.process = me
  else if scope = anyRemote then sender.process ≠ me
  else if scope = anyLocalOrRemote then True
  else scope = sender

instance (me : ℕ) (sender scope : InstanceId) : Decidable (Matches me sender scope) := by
  unfold Matches
  infer_instance

variable {T : HandlerTable} {t : TypeId} {sid : InstanceId} {scopeIds : List InstanceId} {slot : Slot}

theorem count_handlers (h : slot ∈ T.handlers t sid) (sid' : InstanceId) :
    (T.handlers t sid').count slot = if sid' = sid then 1 else 0 := by
  split_ifs with heq
  · subst heq
    exact List.count_eq_one_of_mem (T.nodup t sid') h
  · refine List.count_eq_zero_of_not_mem fun hmem => heq ?_
    exact (T.unique hmem h).2

/-- A handler is collected as often as its scope is named. -/
theorem count_collect (h : slot ∈ T.handlers t sid) :
    (collect T t scopeIds).count slot = scopeIds.count sid := by
  induction scopeIds with
  | nil => rfl
  | cons sid' rest ih =>
    have hrest : (rest.flatMap (T.handlers t)).count slot = rest.count sid := ih
    rw [collect, List.flatMap_cons, List.count_append, hrest, count_handlers h, List.count_cons]
    simp only [beq_iff_eq]
    omega

/-- **Dispatch.** -/
theorem count_dispatchEventHandlers (h : slot ∈ T.handlers t sid) (hscopes : scopeIds.Nodup)
    {active : Slot → Bool} (hactive : active slot = true) :
    (dispatchEventHandlers T t scopeIds active).count slot = if sid ∈ scopeIds then 1 else 0 := by
  rw [dispatchEventHandlers, List.count_filter hactive, count_collect h]
  split_ifs with hmem
  · exact List.count_eq_one_of_mem hscopes hmem
  · exact List.count_eq_zero_of_not_mem hmem

/-! ### The scopes of local and of remote senders -/

section

variable {me : ℕ} {sender : InstanceId} (hsender : ProcessIndex sender.process)

include hsender

/-- A sender is none of the wildcards. -/
theorem sender_ne : sender ≠ anyLocal ∧ sender ≠ anyRemote ∧ sender ≠ anyLocalOrRemote := by
  refine ⟨?_, ?_, ?_⟩
  all_goals rintro rfl
  · exact anyLocal_not_processIndex hsender
  · exact absurd hsender (by decide)
  · exact absurd hsender (by decide)

/-- The scopes of a local event are those that match a sender in this process. -/
theorem mem_scopes_local (hlocal : sender.process = me) :
    sid ∈ [sender, anyLocal, anyLocalOrRemote] ↔ Matches me sender sid := by
  obtain ⟨hne, hremote, hall⟩ := sender_ne hsender
  unfold Matches
  split_ifs with h₁ h₂ h₃
  · simp [h₁, hlocal]
  · subst h₂
    simp [Ne.symm hremote, hlocal, h₁, show anyRemote ≠ anyLocalOrRemote by decide]
  · simp [h₃]
  · simp [h₁, h₃]

/-- The scopes of an interprocess event are those that match a sender in another process; for a sender in
this process they are right for what is neither `any_local` nor `any_remote`. -/
theorem mem_scopes_remote : (sid ∈ [sender, anyRemote, anyLocalOrRemote] ↔ Matches me sender sid) ↔
    sender.process ≠ me ∨ sid ≠ anyLocal ∧ sid ≠ anyRemote := by
  obtain ⟨hne, -, hall⟩ := sender_ne hsender
  unfold Matches
  split_ifs with h₁ h₂ h₃
  · subst h₁
    simp [Ne.symm hne, show anyLocal ≠ anyRemote by decide, show anyLocal ≠ anyLocalOrRemote by decide]
  · simp [h₂]
  · simp [h₃, show anyLocalOrRemote ≠ anyLocal by decide, show anyLocalOrRemote ≠ anyRemote by decide]
  · simp [h₁, h₂, h₃]

theorem nodup_scopes_local : [sender, anyLocal, anyLocalOrRemote].Nodup := by
  obtain ⟨hlocal, -, hall⟩ := sender_ne hsender
  simp [hlocal, hall, show anyLocal ≠ anyLocalOrRemote by decide]

theorem nodup_scopes_remote : [sender, anyRemote, anyLocalOrRemote].Nodup := by
  obtain ⟨-, hremote, hall⟩ := sender_ne hsender
  simp [hremote, hall, show anyRemote ≠ anyLocalOrRemote by decide]

end

end Sintra.Messaging
