import Sintra.Lib.Hub
import Sintra.Messaging.Star

/-!
# The rings of the star

The request rings of the star are a hub, and so are the reply rings: the coordinator's process is the
node that relays. What the readers have done is what the reader functions say (`Star.Inv`), and what
a process sends that does not forge has a defined type and its own sender (`Star.Sent`).
-/

namespace Sintra.Messaging

open Option

variable {ι : Type} [DecidableEq ι]

namespace State

/-- The request rings. -/
def requestHub (s : State ι) : Hub (Proc ι) (Frame ι) RequestAction := ⟨s.requests, s.requestLog⟩

/-- The reply rings. -/
def replyHub (s : State ι) : Hub (Proc ι) (Frame ι) ReplyAction := ⟨s.replies, s.replyLog⟩

/-- All requests have been read. -/
def RequestsRead (s : State ι) : Prop := ∀ q r, Reads q r → s.requestHub.Drained q r

/-- All replies have been read. -/
def RepliesRead (s : State ι) : Prop := ∀ q r, Reads q r → s.replyHub.Drained q r

instance [Fintype ι] (s : State ι) : Decidable s.RequestsRead :=
  inferInstanceAs (Decidable (∀ q r, Reads q r → (s.requestLog q r).length = (s.requests r).length))

instance [Fintype ι] (s : State ι) : Decidable s.RepliesRead :=
  inferInstanceAs (Decidable (∀ q r, Reads q r → (s.replyLog q r).length = (s.replies r).length))

/-- No RPC handler is being executed. -/
def Idle (s : State ι) : Prop := ∀ q r, s.executing q r = none

instance [Fintype ι] (s : State ι) : Decidable s.Idle :=
  inferInstanceAs (Decidable (∀ q r, s.executing q r = none))

end State

/-- The request has reached the process of its receiver: the RPC handler is called, or is missing. -/
def RequestAction.handles : RequestAction → Bool
  | .reject _ => true
  | .execute => true
  | _ => false

/-- The message without the stamp of its last reader. -/
def Message.unstamped (m : Message) : Message := m.relayed 0 0

variable {m' : Message}

theorem Message.sender_eq {m : Message} (h : m.unstamped = m'.unstamped) :
    m.sender = m'.sender := by
  have hsender := congrArg Message.sender h
  exact hsender

theorem Message.receiver_eq {m : Message} (h : m.unstamped = m'.unstamped) :
    m.receiver = m'.receiver := by
  have hreceiver := congrArg Message.receiver h
  exact hreceiver

theorem Message.functionId_eq {m : Message} (h : m.unstamped = m'.unstamped) :
    m.functionId = m'.functionId := by
  have hfunction := congrArg Message.functionId h
  exact hfunction

namespace Star

variable (S : Star ι)

/-- The copy of a request that is read from the ring of `r`. -/
def copyRequest (r : Proc ι) (f : Frame ι) : Frame ι :=
  { f with msg := f.msg.relayed (S.stamp r).1 (S.stamp r).2 }

def copyReply (_ : Proc ι) (f : Frame ι) : Frame ι := { f with msg := f.msg.relayed 0 0 }

/-- What the reader of process `q` for the ring of `r` does with a request. -/
def requestAction (q r : Proc ι) (m : Message) (target : Target) : RequestAction :=
  requestReaderFunction (S.index .coordinator) (S.index q) (S.index r) m target

def replyAction (q r : Proc ι) (m : Message) : ReplyAction :=
  replyReaderFunction (S.index .coordinator) (S.index q) (S.index r) m

structure Inv (s : State ι) : Prop where
  requests : s.requestHub.Inv .coordinator Frame.origin S.copyRequest fun act => act = .relay
  replies : s.replyHub.Inv .coordinator Frame.origin copyReply fun act => act = .relay
  requestActs : ∀ {q r f act}, (f, act) ∈ s.requestLog q r →
    Reads q r ∧ ∃ target, S.requestAction q r f.msg target = act
  replyActs : ∀ {q r f act}, (f, act) ∈ s.replyLog q r → Reads q r ∧ S.replyAction q r f.msg = act

variable {S : Star ι} {s : State ι} {p q r : Proc ι} {f : Frame ι} {m : Message} {target : Target}

omit [DecidableEq ι] in
@[simp] theorem index_inj : S.index p = S.index q ↔ p = q := S.index_injective.eq_iff

/-! ### Only the coordinator's process relays, and only what it reads from leaves -/

theorem requestAction_relay (h : S.requestAction q r m target = .relay) :
    q = .coordinator ∧ r ≠ .coordinator := by
  by_cases hq : q = .coordinator
  · refine ⟨hq, fun hr => ?_⟩
    simp only [requestAction, requestReaderFunction] at h
    split_ifs at h <;> simp_all
  · simp only [requestAction, requestReaderFunction] at h
    split_ifs at h <;> simp_all

theorem replyAction_relay (h : S.replyAction q r m = .relay) :
    q = .coordinator ∧ r ≠ .coordinator := by
  simp only [replyAction, replyReaderFunction] at h
  split_ifs at h with hvalid hlocal hrelay
  simp only [index_inj, ne_eq, Bool.and_eq_true, decide_eq_true_eq, decide_not,
    Bool.not_eq_true', decide_eq_false_iff_not] at hrelay
  obtain ⟨rfl, hne⟩ := hrelay
  exact ⟨rfl, hne⟩

/-- What is not dropped comes from the coordinator's process or from its own sender. -/
theorem requestAction_valid (h : S.requestAction q r m target ≠ .drop) :
    r = .coordinator ∨ m.sender.process = S.index r := by
  by_contra hnot
  rw [not_or] at hnot
  refine h ?_
  simp [requestAction, requestReaderFunction, validateRequestMessage, validateRelaySender, processOf,
    hnot.1, Ne.symm hnot.2]

theorem replyAction_valid (h : S.replyAction q r m ≠ .drop) :
    r = .coordinator ∨ m.sender.process = S.index r := by
  by_contra hnot
  rw [not_or] at hnot
  refine h ?_
  simp [replyAction, replyReaderFunction, validateReplyMessage, validateRelaySender, processOf,
    hnot.1, Ne.symm hnot.2]

omit [DecidableEq ι] in
theorem isLocalInstance_of_handles (h : (S.requestAction q r m target).handles = true) :
    isLocalInstance (S.index q) m.receiver = true := by
  by_contra hnot
  simp only [requestAction, requestReaderFunction, hnot, if_false] at h
  split_ifs at h <;> cases h

/-! ### Steps -/

theorem inv_initial : S.Inv State.initial where
  requests := Hub.inv_empty (fun _ => rfl) fun _ _ => rfl
  replies := Hub.inv_empty (fun _ => rfl) fun _ _ => rfl
  requestActs h := by cases h
  replyActs h := by cases h

section

variable (h : S.Inv s)

include h

theorem Inv.writeRequest (p : Proc ι) (m : Message) : S.Inv (s.writeRequest p m) := { h with
  requests := h.requests.write rfl }

theorem Inv.writeReply (p : Proc ι) (m : Message) (answers : Option (Answer ι)) :
    S.Inv (s.writeReply p m answers) := { h with
  replies := h.replies.write rfl }

theorem Inv.setExecuting (q r : Proc ι) (f : Option (Frame ι)) : S.Inv (s.setExecuting q r f) :=
  { h with }

theorem Inv.logFound (q r : Proc ι) (target : Target) : S.Inv (s.logFound q r target) := { h with }

variable (hreads : Reads q r)

include hreads

theorem Inv.requestActs_log {q' r' : Proc ι} {g : Frame ι} {act : RequestAction}
    (hmem : (g, act) ∈ (s.logRequest q r f (S.requestAction q r f.msg target)).requestLog q' r') :
    Reads q' r' ∧ ∃ target, S.requestAction q' r' g.msg target = act := by
  rcases Hub.mem_logs_read (h := s.requestHub) hmem with hold | ⟨rfl, rfl, rfl, rfl⟩
  · exact h.requestActs hold
  · exact ⟨hreads, target, rfl⟩

theorem Inv.replyActs_log {q' r' : Proc ι} {g : Frame ι} {act : ReplyAction}
    (hmem : (g, act) ∈ (s.logReply q r f (S.replyAction q r f.msg)).replyLog q' r') :
    Reads q' r' ∧ S.replyAction q' r' g.msg = act := by
  rcases Hub.mem_logs_read (h := s.replyHub) hmem with hold | ⟨rfl, rfl, rfl, rfl⟩
  · exact h.replyActs hold
  · exact ⟨hreads, rfl⟩

section

variable (hnext : s.nextRequest q r = some f)

include hnext

/-- A request is read and not relayed. -/
theorem Inv.logRequest (hrelay : S.requestAction q r f.msg target ≠ .relay) :
    S.Inv (s.logRequest q r f (S.requestAction q r f.msg target)) := { h with
  requests := h.requests.read hnext (by simpa using hrelay)
  requestActs := h.requestActs_log hreads }

/-- The coordinator's process reads a request of a leaf and relays it. -/
theorem Inv.relayRequest (hrelay : S.requestAction q r f.msg target = .relay) :
    S.Inv ((s.logRequest q r f (S.requestAction q r f.msg target)).relayRequest q f
      (S.stamp r).1 (S.stamp r).2) := by
  obtain ⟨rfl, hr⟩ := requestAction_relay hrelay
  constructor
  · exact h.requests.relay hnext hr (by simpa using hrelay) rfl
  · exact h.replies
  · exact h.requestActs_log hreads
  · exact h.replyActs

theorem Inv.perform (target : Target) :
    S.Inv (S.perform (s.logRequest q r f (S.requestAction q r f.msg target)) q r f
      (S.requestAction q r f.msg target)) := by
  by_cases hrelay : S.requestAction q r f.msg target = .relay
  · have hinv := h.relayRequest hreads hnext hrelay
    rw [hrelay] at hinv ⊢
    exact hinv
  · have hlog := h.logRequest hreads hnext hrelay
    revert hlog
    cases hact : S.requestAction q r f.msg target with
    | relay => exact absurd hact hrelay
    | reject reason =>
      intro hlog
      rw [Star.perform]
      split_ifs
      · exact hlog
      · exact hlog.writeReply _ _ _
    | execute => exact fun hlog => hlog.setExecuting _ _ _
    | drop | ignore | dispatch scopeIds => exact id

end

variable (hnext : s.nextReply q r = some f)

include hnext

theorem Inv.logReply (hrelay : S.replyAction q r f.msg ≠ .relay) :
    S.Inv (s.logReply q r f (S.replyAction q r f.msg)) := { h with
  replies := h.replies.read hnext (by simpa using hrelay)
  replyActs := h.replyActs_log hreads }

theorem Inv.relayReply (hrelay : S.replyAction q r f.msg = .relay) :
    S.Inv ((s.logReply q r f (S.replyAction q r f.msg)).relayReply q f) := by
  obtain ⟨rfl, hr⟩ := replyAction_relay hrelay
  constructor
  · exact h.requests
  · exact h.replies.relay hnext hr (by simpa using hrelay) rfl
  · exact h.requestActs
  · exact h.replyActs_log hreads

theorem Inv.performReply : S.Inv
    ((s.logReply q r f (S.replyAction q r f.msg)).performReply q f (S.replyAction q r f.msg)) := by
  by_cases hrelay : S.replyAction q r f.msg = .relay
  · have hinv := h.relayReply hreads hnext hrelay
    rw [hrelay] at hinv ⊢
    exact hinv
  · have hlog := h.logReply hreads hnext hrelay
    revert hlog
    cases hact : S.replyAction q r f.msg with
    | relay => exact absurd hact hrelay
    | drop | ignore | lookup => exact id

end

/-- What a step does: a process writes, a reader reads, or an RPC handler ends. -/
theorem step_cases {t : State ι} {act : Action ι} (hstep : S.step s act = some t) :
    (∃ p transceiver receiver typeId functionId,
      act = .send p transceiver receiver typeId functionId ∧ typeId ≠ notDefinedTypeId ∧
      (S.oneWay typeId = true ↔ functionId = invalidFunctionId) ∧
      t = s.writeRequest p (S.outboundRequest p transceiver receiver typeId functionId)) ∨
    (∃ p transceiver receiver functionId, act = .settle p transceiver receiver functionId ∧
      t = s.writeReply p
        ⟨⟨S.index p, transceiver⟩, receiver, notDefinedTypeId, functionId, 0, 0⟩ none) ∨
    (∃ i m, act = .forge i m ∧ t = s.writeRequest (.leaf i) m) ∨
    (∃ i m, act = .forgeReply i m ∧ t = s.writeReply (.leaf i) m none) ∨
    (∃ q r target f, act = .readRequest q r target ∧ Reads q r ∧ s.executing q r = none ∧
      s.nextRequest q r = some f ∧
      t = (S.perform (s.logRequest q r f (S.requestAction q r f.msg target)) q r f
        (S.requestAction q r f.msg target)).logFound q r target) ∨
    (∃ q r outcome f, act = .complete q r outcome ∧ s.executing q r = some f ∧
      ¬(outcome = .deferred ∧ S.oneWay f.msg.typeId = true) ∧
      (rpcHandler (S.oneWay f.msg.typeId) f.msg outcome = none ∧ t = s.setExecuting q r none ∨
        ∃ m, rpcHandler (S.oneWay f.msg.typeId) f.msg outcome = some m ∧
          t = (s.setExecuting q r none).writeReply q m (some ⟨r, f.origin⟩))) ∨
    (∃ q r f, act = .readReply q r ∧ Reads q r ∧ s.nextReply q r = some f ∧
      t = (s.logReply q r f (S.replyAction q r f.msg)).performReply q f
        (S.replyAction q r f.msg)) := by
  cases act with
  | send p transceiver receiver typeId functionId =>
    simp only [step, ite_none_right_eq_some, some.injEq] at hstep
    exact .inl ⟨p, transceiver, receiver, typeId, functionId, rfl, hstep.1.1, hstep.1.2,
      hstep.2.symm⟩
  | settle p transceiver receiver functionId =>
    simp only [step, some.injEq] at hstep
    exact .inr (.inl ⟨p, transceiver, receiver, functionId, rfl, hstep.symm⟩)
  | forge i m =>
    simp only [step, some.injEq] at hstep
    exact .inr (.inr (.inl ⟨i, m, rfl, hstep.symm⟩))
  | forgeReply i m =>
    simp only [step, some.injEq] at hstep
    exact .inr (.inr (.inr (.inl ⟨i, m, rfl, hstep.symm⟩)))
  | readRequest q r target =>
    simp only [step, ite_none_right_eq_some, map_eq_some_iff] at hstep
    obtain ⟨⟨hreads, hidle⟩, f, hnext, ht⟩ := hstep
    exact .inr (.inr (.inr (.inr (.inl ⟨q, r, target, f, rfl, hreads, hidle, hnext, ht.symm⟩))))
  | complete q r outcome =>
    simp only [step, bind_eq_some_iff] at hstep
    obtain ⟨f, hf, ht⟩ := hstep
    split_ifs at ht with hdeferred
    refine .inr (.inr (.inr (.inr (.inr (.inl ⟨q, r, outcome, f, rfl, hf, hdeferred, ?_⟩)))))
    cases hreply : rpcHandler (S.oneWay f.msg.typeId) f.msg outcome with
    | none =>
      rw [hreply] at ht
      exact .inl ⟨rfl, (some.inj ht).symm⟩
    | some m =>
      rw [hreply] at ht
      exact .inr ⟨m, rfl, (some.inj ht).symm⟩
  | readReply q r =>
    simp only [step, ite_none_right_eq_some, map_eq_some_iff] at hstep
    obtain ⟨hreads, f, hnext, ht⟩ := hstep
    exact .inr (.inr (.inr (.inr (.inr (.inr ⟨q, r, f, rfl, hreads, hnext, ht.symm⟩)))))

theorem Inv.step {t : State ι} {act : Action ι} (h : S.Inv s) (hstep : S.step s act = some t) :
    S.Inv t := by
  rcases step_cases hstep with ⟨p, transceiver, receiver, typeId, functionId, -, -, -, rfl⟩ |
    ⟨p, transceiver, receiver, functionId, -, rfl⟩ | ⟨i, m, -, rfl⟩ | ⟨i, m, -, rfl⟩ |
    ⟨q, r, target, f, -, hreads, -, hnext, rfl⟩ | ⟨q, r, outcome, f, -, -, -, hreply⟩ |
    ⟨q, r, f, -, hreads, hnext, rfl⟩
  · exact h.writeRequest _ _
  · exact h.writeReply _ _ _
  · exact h.writeRequest _ _
  · exact h.writeReply _ _ _
  · exact (h.perform hreads hnext target).logFound q r target
  · rcases hreply with ⟨-, rfl⟩ | ⟨m, -, rfl⟩
    · exact h.setExecuting _ _ _
    · exact (h.setExecuting _ _ _).writeReply _ _ _
  · exact h.performReply hreads hnext

/-- The invariant holds in every run. -/
theorem reachable_inv (h : S.machine.Reachable s) : S.Inv s := by
  refine h.invariant ?_ ?_
  · rintro s rfl
    exact inv_initial
  · intro s act t hinv hstep
    exact hinv.step hstep

theorem Inv.request_reads (h : S.Inv s) {e : Frame ι × RequestAction}
    (he : e ∈ s.requestHub.logs q r) : q = .coordinator ∨ r = .coordinator := (h.requestActs he).1

theorem Inv.reply_reads (h : S.Inv s) {e : Frame ι × ReplyAction} (he : e ∈ s.replyHub.logs q r) :
    q = .coordinator ∨ r = .coordinator := (h.replyActs he).1

/-! ### What is sent -/

/-- The message is one that the runtime of the process has sent. -/
structure Sent (S : Star ι) (p : Proc ι) (m : Message) : Prop where
  sender : m.sender.process = S.index p
  typeId : m.typeId ≠ notDefinedTypeId
  oneWay : S.oneWay m.typeId = true ↔ m.functionId = invalidFunctionId

section

variable (hsent : S.Sent p m)

include hsent

theorem Sent.validate_own : validateRequestMessage (S.index .coordinator) (S.index p) m = true := by
  simp [validateRequestMessage, validateRelaySender, processOf, hsent.sender, hsent.typeId]

omit [DecidableEq ι] in
theorem Sent.validate_coordinator :
    validateRequestMessage (S.index .coordinator) (S.index .coordinator) m = true := by
  simp [validateRequestMessage, validateRelaySender, hsent.typeId]

theorem Sent.isLocal_sender : isLocal (S.index q) m.sender = decide (q = p) := by
  have hprocess : ProcessIndex m.sender.process := by
    rw [hsent.sender]
    exact S.processIndex p
  rw [isLocal_eq hprocess, Bool.eq_iff_iff, isLocalInstance_iff hprocess, hsent.sender]
  simp [eq_comm]

end

/-- What is in the rings and comes from a trusted process was sent by it. -/
def Trustworthy (S : Star ι) (trusted : Proc ι → Prop) (s : State ι) : Prop :=
  ∀ q f, f ∈ s.requests q → trusted f.origin.1 → S.Sent f.origin.1 f.msg

variable {trusted : Proc ι → Prop}

theorem Trustworthy.writeRequest (h : S.Trustworthy trusted s)
    (hm : trusted p → S.Sent p m) : S.Trustworthy trusted (s.writeRequest p m) := by
  intro q f hf htrusted
  rcases Hub.mem_rings_write (h := s.requestHub) hf with hf | ⟨rfl, rfl⟩
  · exact h q f hf htrusted
  · exact hm htrusted

theorem Trustworthy.perform (h : S.Trustworthy trusted s)
    (hf : f ∈ s.requests r) (q : Proc ι) (act : RequestAction) :
    S.Trustworthy trusted (S.perform (s.logRequest q r f act) q r f act) := by
  cases act with
  | relay =>
    intro q' g hg htrusted
    rcases Hub.mem_rings_write (h := (s.logRequest q r f .relay).requestHub) hg with
      hg | ⟨rfl, rfl⟩
    · exact h q' g hg htrusted
    · exact { h r f hf htrusted with }
  | reject reason =>
    rw [Star.perform]
    split_ifs
    all_goals exact h
  | execute | drop | ignore | dispatch scopeIds => exact h

/-- Every message of a trusted process is as it was sent, wherever it is. -/
theorem reachable_sent (h : S.machine.ReachableUnder (Faithful trusted) s) :
    S.Trustworthy trusted s := by
  refine h.invariant ?_ ?_
  · rintro s rfl q f hf
    cases hf
  · intro s act t _ hsent hfaithful hstep
    rcases step_cases hstep with ⟨p, transceiver, receiver, typeId, functionId, -, htype, hway, rfl⟩ |
      ⟨p, transceiver, receiver, functionId, -, rfl⟩ | ⟨i, m, rfl, rfl⟩ | ⟨i, m, -, rfl⟩ |
      ⟨q, r, target, f, -, -, -, hnext, rfl⟩ | ⟨q, r, outcome, f, -, -, -, hreply⟩ |
      ⟨q, r, f, -, -, -, rfl⟩
    · exact hsent.writeRequest fun _ => ⟨rfl, htype, hway⟩
    · exact hsent
    · exact hsent.writeRequest fun htrusted => absurd htrusted hfaithful
    · exact hsent
    · exact hsent.perform (List.mem_of_getElem? hnext) q _
    · rcases hreply with ⟨-, rfl⟩ | ⟨m, -, rfl⟩
      · exact hsent
      · exact hsent
    · cases S.replyAction q r f.msg <;> exact hsent

/-- The trust in the coordinator's process is justified in every run. -/
theorem reachable_sent_coordinator (h : S.machine.Reachable s) :
    S.Trustworthy (fun p => p = .coordinator) s := by
  refine reachable_sent (h.mono ?_)
  intro s act _
  cases act with
  | forge i m | forgeReply i m => exact fun hleaf => by cases hleaf
  | _ => trivial

/-! ### The ring of the coordinator -/

/-- A request of a leaf is in the coordinator's ring because it was relayed from the leaf's. -/
theorem Inv.relayed_request {i : ι} (h : S.Inv s) (hf : f ∈ s.requests .coordinator)
    (hi : f.origin.1 = .leaf i) : ∃ g, (g, .relay) ∈ s.requestLog .coordinator (.leaf i) ∧
      f = S.copyRequest (.leaf i) g ∧ g.msg.sender.process = S.index (.leaf i) := by
  obtain ⟨g, act, hlog, hrelay, hcopy⟩ := h.requests.of_mem_ring hf (by rw [hi]; exact nofun)
  obtain rfl : act = .relay := by simpa using hrelay
  rw [hi] at hlog hcopy
  refine ⟨g, hlog, hcopy, ?_⟩
  obtain ⟨-, target, hact⟩ := h.requestActs hlog
  rcases requestAction_valid (by rw [hact]; exact nofun) with hcoordinator | hsender
  · cases hcoordinator
  · exact hsender

/-- What is in the coordinator's ring has its sender in the process that wrote it first. -/
theorem sender_of_mem (h : S.machine.Reachable s) (hf : f ∈ s.requests .coordinator) :
    f.msg.sender.process = S.index f.origin.1 := by
  cases hp : f.origin.1 with
  | coordinator =>
    have hsent := reachable_sent_coordinator h .coordinator f hf hp
    rw [← hp]
    exact hsent.sender
  | leaf i =>
    obtain ⟨g, -, rfl, hsender⟩ := (reachable_inv h).relayed_request hf hp
    exact hsender

/-! ### Copies -/

/-- A request that is relayed if a leaf sends it is in the coordinator's ring in the end. -/
theorem Inv.exists_copy (h : S.Inv s) (hread : s.RequestsRead) (hf : f ∈ s.requests p)
    (hown : f.origin.1 = p)
    (hrelay : ∀ target, p ≠ .coordinator → S.requestAction .coordinator p f.msg target = .relay) :
    ∃ g ∈ s.requests .coordinator, g.origin = f.origin ∧ g.msg.unstamped = f.msg.unstamped := by
  obtain rfl | hp := eq_or_ne p .coordinator
  · exact ⟨f, hf, rfl, rfl⟩
  · obtain ⟨act, hlog⟩ := h.requests.exists_mem_log (hread .coordinator p (.inl rfl)) hf
    obtain ⟨-, target, rfl⟩ := h.requestActs hlog
    refine ⟨S.copyRequest p f, h.requests.mem_ring hp hlog ?_, rfl, rfl⟩
    simpa using hrelay target hp

/-- A request is what was written first, but for the stamp. -/
theorem Inv.unstamped_eq (h : S.Inv s) {g : Frame ι} (hf : f ∈ s.requests p) (hown : f.origin.1 = p)
    (hg : g ∈ s.requests r) (ho : g.origin = f.origin) : g.msg.unstamped = f.msg.unstamped := by
  rcases h.requests.eq_or_eq_copy (fun _ _ => rfl) hf hown hg ho with rfl | rfl
  all_goals rfl

theorem Inv.reply_unstamped_eq (h : S.Inv s) {g : Frame ι} (hf : f ∈ s.replies p)
    (hown : f.origin.1 = p) (hg : g ∈ s.replies r) (ho : g.origin = f.origin) :
    g.msg.unstamped = f.msg.unstamped := by
  rcases h.replies.eq_or_eq_copy (fun _ _ => rfl) hf hown hg ho with rfl | rfl
  all_goals rfl

end Star

end Sintra.Messaging
