import Sintra.Messaging.StarInvariant

/-!
# Routing of requests and replies

A request to an instance is read where its process finds it: in the ring of the caller, if that is a
leaf and the receiver is an instance of the coordinator's process other than a service, and otherwise in
the coordinator's ring. There the RPC handler is called, or the request is rejected because the instance
or its function is missing. The reply takes the same way back.
-/

set_option linter.unusedSectionVars false

namespace Sintra.Messaging

open State Option

variable {ι : Type} [DecidableEq ι]

/-- The frame is the one that was first written there, and expects a reply. -/
def Frame.expects (o : Origin ι) (f : Frame ι) : Bool :=
  f.origin = o && f.msg.functionId ≠ invalidFunctionId

namespace State

/-- How often the reader of process `q` for the ring of `r` has executed or rejected a request. -/
def handled (s : State ι) (q r : Proc ι) (o : Origin ι) : ℕ :=
  s.requestHub.times Frame.origin RequestAction.handles q r o

/-- How often the reader has looked up the return handler of a reply. -/
def lookups (s : State ι) (q r : Proc ι) (o : Origin ι) : ℕ :=
  s.replyHub.times Frame.origin (fun act => act = .lookup) q r o

/-- How many replies process `q` has written to a request that was read from the ring of `r`. -/
def answers (s : State ι) (q r : Proc ι) (o : Origin ι) : ℕ :=
  (s.replies q).countP fun g => decide (g.origin.1 = q) && decide (g.answers = some ⟨r, o⟩)

/-- How many replies are expected to what the reader has handled. -/
def owed (s : State ι) (q r : Proc ι) (o : Origin ι) : ℕ :=
  (s.requestLog q r).countP fun e => e.1.expects o && e.2.handles

/-- Whether a reply is expected from the handler that the reader executes. -/
def pending (s : State ι) (q r : Proc ι) (o : Origin ι) : ℕ :=
  (s.executing q r).toList.countP fun f => f.expects o

end State

namespace Star

variable {S : Star ι} {s : State ι} {p q r : Proc ι} {f : Frame ι} {m : Message} {target : Target}
  {o : Origin ι}

/-! ### Replies -/

theorem answers_writeReply (s : State ι) (p : Proc ι) (m : Message) (a : Option (Answer ι))
    (q r : Proc ι) (o : Origin ι) : (s.writeReply p m a).answers q r o =
      s.answers q r o + if q = p ∧ a = some ⟨r, o⟩ then 1 else 0 := by
  obtain rfl | hq := eq_or_ne q p
  · simp [answers, writeReply, List.countP_append, List.countP_singleton]
  · simp [answers, writeReply, hq]

/-- The replies of others are not counted. -/
theorem answers_relayReply (s : State ι) (hown : f.origin.1 ≠ p) (q r : Proc ι) (o : Origin ι) :
    (s.relayReply p f).answers q r o = s.answers q r o := by
  obtain rfl | hq := eq_or_ne q p
  · simp [answers, relayReply, List.countP_append, hown]
  · simp [answers, relayReply, hq]

section

variable (s : State ι) (q r : Proc ι) (f : Frame ι) (act : RequestAction) (x : Option (Frame ι))
  (q' r' : Proc ι) (o : Origin ι)

theorem owed_logRequest : (s.logRequest q r f act).owed q' r' o =
      s.owed q' r' o + if (q' = q ∧ r' = r) ∧ (f.expects o && act.handles) = true then 1 else 0 := by
  by_cases hsame : q' = q ∧ r' = r
  · obtain ⟨rfl, rfl⟩ := hsame
    have hlog : (s.logRequest q' r' f act).requestLog q' r' = s.requestLog q' r' ++ [(f, act)] :=
      s.requestHub.logs_read_self q' r' f act
    rw [owed, hlog, List.countP_append, List.countP_singleton]
    simp [owed]
  · have hlog : (s.logRequest q r f act).requestLog q' r' = s.requestLog q' r' :=
      Hub.logs_read_of_ne (h := s.requestHub) hsame
    rw [owed, hlog, if_neg fun h => hsame h.1]
    rfl

/-- What was found in a log is still there after one more entry. -/
theorem mem_logRequest {e : Frame ι × RequestAction} {p p' : Proc ι} (hmem : e ∈ s.requestLog p p') :
    e ∈ (s.logRequest q r f act).requestLog p p' :=
  (s.requestHub.isPrefix_read q r f act p p').subset hmem

theorem mem_logRequest_self : (f, act) ∈ (s.logRequest q r f act).requestLog q r := by
  have hlog : (s.logRequest q r f act).requestLog q r = s.requestLog q r ++ [(f, act)] :=
    s.requestHub.logs_read_self q r f act
  rw [hlog]
  exact List.mem_append_right _ (List.mem_singleton_self _)

theorem executing_setExecuting :
    (s.setExecuting q r x).executing q' r' = if q' = q ∧ r' = r then x else s.executing q' r' := by
  obtain rfl | hq := eq_or_ne q' q
  · by_cases hr : r' = r
    · subst hr
      simp [setExecuting]
    · simp [setExecuting, hr]
  · simp [setExecuting, hq]

theorem pending_setExecuting : (s.setExecuting q r x).pending q' r' o =
      if q' = q ∧ r' = r then x.toList.countP (fun f => f.expects o) else s.pending q' r' o := by
  rw [pending, executing_setExecuting]
  split_ifs with hsame
  all_goals rfl

end

/-- A reply is written if and only if one is expected. -/
theorem rpcHandler_eq_none_iff {fireAndForget : Bool} {outcome : Outcome}
    (hway : fireAndForget = true ↔ m.functionId = invalidFunctionId)
    (hdeferred : ¬(outcome = .deferred ∧ fireAndForget = true)) :
    rpcHandler fireAndForget m outcome = none ↔ m.functionId = invalidFunctionId := by
  cases outcome with
  | unavailable => simp [rpcHandler]
  | returned | thrown exceptionTypeId => simp [rpcHandler, hway]
  | deferred =>
    have hnot : ¬fireAndForget = true := fun h => hdeferred ⟨rfl, h⟩
    rw [hway] at hnot
    simp [rpcHandler, hnot]

theorem rpcHandler_eq_some {fireAndForget : Bool} {outcome : Outcome} {m' : Message}
    (h : rpcHandler fireAndForget m outcome = some m') : ∃ typeId, m' = m.reply typeId := by
  cases outcome with
  | unavailable | returned | thrown exceptionTypeId =>
    simp only [rpcHandler, ite_none_left_eq_some, some.injEq] at h
    exact ⟨_, h.2.symm⟩
  | deferred =>
    simp only [rpcHandler, some.injEq] at h
    exact ⟨_, h.symm⟩

/-! ### Every request is answered once -/

/-- What is owed for the requests that were handled is paid, or pending. -/
structure Answering (s : State ι) : Prop where
  balance : ∀ q r o, s.answers q r o + s.pending q r o = s.owed q r o
  executing : ∀ q r f, s.executing q r = some f → (f, .execute) ∈ s.requestLog q r
  replied : ∀ q g a, g ∈ s.replies q → g.origin.1 = q → g.answers = some a →
    ∃ f act typeId, (f, act) ∈ s.requestLog q a.ring ∧ act.handles = true ∧ f.origin = a.request ∧
      g.msg = f.msg.reply typeId

section

variable (h : Answering s)

include h

theorem Answering.writeRequest (p : Proc ι) (m : Message) : Answering (s.writeRequest p m) :=
  { h with }

/-- A reply that answers nothing. -/
theorem Answering.writeReply_none (p : Proc ι) (m : Message) :
    Answering (s.writeReply p m none) where
  balance q r o := by
    have hanswers : (s.writeReply p m none).answers q r o = s.answers q r o := by
      rw [answers_writeReply]
      simp
    rw [hanswers]
    exact h.balance q r o
  executing := h.executing
  replied q g a hg hown ha := by
    rcases Hub.mem_rings_write (h := s.replyHub) hg with hold | ⟨rfl, rfl⟩
    · exact h.replied q g a hold hown ha
    · cases ha

theorem Answering.replied_log (q r : Proc ι) (f : Frame ι) (act : RequestAction) (q' : Proc ι)
    (g : Frame ι) (a : Answer ι) (hg : g ∈ s.replies q') (hown : g.origin.1 = q')
    (ha : g.answers = some a) : ∃ f' act' typeId,
      (f', act') ∈ (s.logRequest q r f act).requestLog q' a.ring ∧ act'.handles = true ∧
      f'.origin = a.request ∧ g.msg = f'.msg.reply typeId := by
  obtain ⟨f', act', typeId, hmem, hrest⟩ := h.replied q' g a hg hown ha
  exact ⟨f', act', typeId, mem_logRequest s q r f act hmem, hrest⟩

/-- A request is read that is not for this process, or expects no reply. -/
theorem Answering.logRequest (q r : Proc ι) {act : RequestAction}
    (hact : act.handles = false ∨ f.msg.functionId = invalidFunctionId) :
    Answering (s.logRequest q r f act) where
  balance q' r' o := by
    have howed : (s.logRequest q r f act).owed q' r' o = s.owed q' r' o := by
      rw [owed_logRequest]
      rcases hact with hact | hact
      · simp [hact]
      · simp [Frame.expects, hact]
    rw [howed]
    exact h.balance q' r' o
  executing q' r' g hg := mem_logRequest s q r f act (h.executing q' r' g hg)
  replied := h.replied_log q r f act

/-- A request is rejected that expects a reply. -/
theorem Answering.reject (q r : Proc ι) (reason : String)
    (hfunction : f.msg.functionId ≠ invalidFunctionId) :
    Answering ((s.logRequest q r f (.reject reason)).writeReply q (f.msg.reply rpcUnavailableTypeId)
      (some ⟨r, f.origin⟩)) where
  balance q' r' o := by
    have howed := owed_logRequest s q r f (.reject reason) q' r' o
    have hanswers := answers_writeReply (s.logRequest q r f (.reject reason)) q
      (f.msg.reply rpcUnavailableTypeId) (some ⟨r, f.origin⟩) q' r' o
    have hiff : ((q' = q ∧ r' = r) ∧ (f.expects o && (RequestAction.reject reason).handles) = true) ↔
        (q' = q ∧ some (Answer.mk r f.origin) = some ⟨r', o⟩) := by
      simp only [Frame.expects, RequestAction.handles, some.injEq, Answer.mk.injEq, Bool.and_true,
        Bool.and_eq_true, decide_eq_true_eq, hfunction, ne_eq, not_false_eq_true, and_true]
      constructor
      · rintro ⟨⟨hq, hr⟩, ho⟩
        exact ⟨hq, hr.symm, ho⟩
      · rintro ⟨hq, hr, ho⟩
        exact ⟨⟨hq, hr.symm⟩, ho⟩
    have hbalance := h.balance q' r' o
    rw [if_congr hiff rfl rfl] at howed
    calc _ = s.answers q' r' o + _ + s.pending q' r' o := congrArg (· + _) hanswers
      _ = s.owed q' r' o + _ := by rw [← hbalance]; omega
      _ = _ := howed.symm
  executing q' r' g hg := mem_logRequest s q r f _ (h.executing q' r' g hg)
  replied q' g a hg hown ha := by
    rcases Hub.mem_rings_write (h := (s.logRequest q r f (.reject reason)).replyHub) hg with
      hold | ⟨rfl, rfl⟩
    · exact h.replied_log q r f _ q' g a hold hown ha
    · obtain rfl : ⟨r, f.origin⟩ = a := some.inj ha
      exact ⟨f, _, _, mem_logRequest_self s q' r f _, rfl, rfl, rfl⟩

/-- The execution of an RPC handler begins. -/
theorem Answering.execute (q r : Proc ι) (hidle : s.executing q r = none) :
    Answering ((s.logRequest q r f .execute).setExecuting q r (some f)) where
  balance q' r' o := by
    have howed := owed_logRequest s q r f .execute q' r' o
    have hpending := pending_setExecuting (s.logRequest q r f .execute) q r (some f) q' r' o
    have hbalance := h.balance q' r' o
    by_cases hsame : q' = q ∧ r' = r
    · obtain ⟨rfl, rfl⟩ := hsame
      have hzero : s.pending q' r' o = 0 := by
        rw [pending, hidle]
        rfl
      rw [if_pos ⟨rfl, rfl⟩, toList_some, List.countP_singleton] at hpending
      simp only [true_and, RequestAction.handles, Bool.and_true] at howed
      change s.answers q' r' o + _ = (s.logRequest q' r' f .execute).owed q' r' o
      omega
    · rw [if_neg hsame] at hpending
      rw [if_neg fun hcount => hsame hcount.1] at howed
      change s.answers q' r' o + _ = (s.logRequest q r f .execute).owed q' r' o
      rw [hpending, howed]
      exact hbalance
  executing q' r' g hg := by
    rw [executing_setExecuting] at hg
    split_ifs at hg with hsame
    · obtain ⟨rfl, rfl⟩ := hsame
      obtain rfl : f = g := some.inj hg
      exact mem_logRequest_self s q' r' f _
    · exact mem_logRequest s q r f _ (h.executing q' r' g hg)
  replied := h.replied_log q r f .execute

/-- The execution of an RPC handler ends, and no reply is expected. -/
theorem Answering.complete (hf : s.executing q r = some f)
    (hfunction : f.msg.functionId = invalidFunctionId) : Answering (s.setExecuting q r none) where
  balance q' r' o := by
    have hpending : (s.setExecuting q r none).pending q' r' o = s.pending q' r' o := by
      rw [pending_setExecuting]
      split_ifs with hsame
      · obtain ⟨rfl, rfl⟩ := hsame
        rw [pending, hf]
        simp [Frame.expects, hfunction]
      · rfl
    rw [hpending]
    exact h.balance q' r' o
  executing q' r' g hg := by
    rw [executing_setExecuting] at hg
    split_ifs at hg
    exact h.executing q' r' g hg
  replied := h.replied

/-- The execution of an RPC handler ends with a reply. -/
theorem Answering.reply (hf : s.executing q r = some f)
    (hfunction : f.msg.functionId ≠ invalidFunctionId) (typeId : ℕ) :
    Answering ((s.setExecuting q r none).writeReply q (f.msg.reply typeId)
      (some ⟨r, f.origin⟩)) where
  balance q' r' o := by
    have hpending := pending_setExecuting s q r none q' r' o
    have hanswers := answers_writeReply (s.setExecuting q r none) q (f.msg.reply typeId)
      (some ⟨r, f.origin⟩) q' r' o
    have hbalance := h.balance q' r' o
    change _ + (s.setExecuting q r none).pending q' r' o = s.owed q' r' o
    rw [hpending, hanswers, ← hbalance]
    change s.answers q' r' o + _ + _ = _
    by_cases hsame : q' = q ∧ r' = r
    · obtain ⟨rfl, rfl⟩ := hsame
      have hone : s.pending q' r' o = if f.origin = o then 1 else 0 := by
        rw [pending, hf, toList_some, List.countP_singleton]
        simp [Frame.expects, hfunction]
      rw [hone]
      simp
    · have hnot : ¬(q' = q ∧ some (Answer.mk r f.origin) = some ⟨r', o⟩) := by
        rintro ⟨hq, hr⟩
        exact hsame ⟨hq, ((Answer.mk.inj (some.inj hr)).1).symm⟩
      rw [if_neg hnot, if_neg hsame, Nat.add_zero]
  executing q' r' g hg := by
    have hg : (s.setExecuting q r none).executing q' r' = some g := hg
    rw [executing_setExecuting] at hg
    split_ifs at hg
    exact h.executing q' r' g hg
  replied q' g a hg hown ha := by
    rcases Hub.mem_rings_write (h := s.replyHub) hg with hold | ⟨rfl, rfl⟩
    · exact h.replied q' g a hold hown ha
    · obtain rfl : ⟨r, f.origin⟩ = a := some.inj ha
      exact ⟨f, .execute, typeId, h.executing q' r f hf, rfl, rfl, rfl⟩

theorem Answering.perform (hidle : s.executing q r = none) (f : Frame ι) (act : RequestAction) :
    Answering (S.perform (s.logRequest q r f act) q r f act) := by
  cases act with
  | relay =>
    have hlog : Answering (s.logRequest q r f .relay) := h.logRequest q r (.inl rfl)
    exact { hlog with }
  | reject reason =>
    rw [Star.perform]
    split_ifs with hfunction
    · exact h.logRequest q r (.inr hfunction)
    · exact h.reject q r reason hfunction
  | execute => exact h.execute q r hidle
  | drop | ignore | dispatch scopeIds => exact h.logRequest q r (.inl rfl)

theorem Answering.performReply (hinv : S.Inv s) (hnext : s.nextReply q r = some f) :
    Answering ((s.logReply q r f (S.replyAction q r f.msg)).performReply q f
      (S.replyAction q r f.msg)) := by
  cases hact : S.replyAction q r f.msg with
  | relay =>
    obtain ⟨rfl, hr⟩ := replyAction_relay hact
    have hown : f.origin.1 ≠ .coordinator := by
      rw [hinv.replies.own r _ f hnext (.inl hr)]
      exact hr
    constructor
    · intro q' r' o
      have hanswers := answers_relayReply (s.logReply .coordinator r f .relay) hown q' r' o
      have hbalance := h.balance q' r' o
      exact (congrArg (· + _) hanswers).trans hbalance
    · exact h.executing
    · intro q' g a hg hgown ha
      rcases Hub.mem_rings_write (h := (s.logReply .coordinator r f .relay).replyHub) hg with
        hold | ⟨rfl, rfl⟩
      · exact h.replied q' g a hold hgown ha
      · exact absurd hgown hown
  | drop | ignore | lookup => exact { h with }

end

theorem reachable_answering (h : S.machine.ReachableUnder Genuine s) : Answering s := by
  refine h.invariant ?_ ?_
  · rintro s rfl
    exact ⟨fun _ _ _ => rfl, fun _ _ _ hf => (nomatch hf), fun _ _ _ hg => (nomatch hg)⟩
  · intro s act t hs hanswering hgenuine hstep
    have hinv := reachable_inv hs.reachable
    rcases step_cases hstep with ⟨p, transceiver, receiver, typeId, functionId, -, -, -, rfl⟩ |
      ⟨p, transceiver, receiver, functionId, -, rfl⟩ | ⟨i, m, rfl, -⟩ | ⟨i, m, rfl, -⟩ |
      ⟨q, r, target, f, -, -, hidle, -, rfl⟩ | ⟨q, r, outcome, f, -, hf, hdeferred, hreply⟩ |
      ⟨q, r, f, -, -, hnext, rfl⟩
    · exact hanswering.writeRequest _ _
    · exact hanswering.writeReply_none _ _
    · exact absurd trivial hgenuine
    · exact absurd trivial hgenuine
    · exact { hanswering.perform hidle f _ with }
    · -- a frame that is executed was sent, so it expects a reply unless it is of a one-way type
      have hring : f ∈ s.requests r := hinv.requests.mem_log (hanswering.executing q r f hf)
      have hsent := reachable_sent hs r f hring trivial
      have hnone := rpcHandler_eq_none_iff hsent.oneWay hdeferred
      rcases hreply with ⟨hm, rfl⟩ | ⟨m, hm, rfl⟩
      · exact hanswering.complete hf (hnone.1 hm)
      · have hfunction : f.msg.functionId ≠ invalidFunctionId := by
          intro hinvalid
          rw [hnone.2 hinvalid] at hm
          cases hm
        obtain ⟨typeId, rfl⟩ := rpcHandler_eq_some hm
        exact hanswering.reply hf hfunction typeId
    · exact hanswering.performReply hinv hnext

/-! ### What the readers do with a request to an instance -/

/-- Whatever the request finds, it is handled. -/
theorem handles_found (target : Target) (gone unknown : String) :
    RequestAction.handles (if (!target.receiverExists) = true then .reject gone
      else if (!target.handlerKnown) = true then .reject unknown else .execute) = true := by
  split_ifs
  all_goals rfl

/-- What a reader has done is what the reader function says for what it has found. -/
def Found (S : Star ι) (s : State ι) : Prop := ∀ q r,
  (s.requestLog q r).Forall₂ (fun e target => S.requestAction q r e.1.msg target = e.2) (s.found q r)

theorem logs_perform (s : State ι) (q r : Proc ι) (f : Frame ι) (act : RequestAction) :
    (S.perform s q r f act).requestLog = s.requestLog ∧ (S.perform s q r f act).found = s.found := by
  cases act with
  | reject reason =>
    rw [Star.perform]
    split_ifs
    all_goals exact ⟨rfl, rfl⟩
  | _ => exact ⟨rfl, rfl⟩

/-- One more request is read. -/
theorem Found.perform (h : S.Found s) (q r : Proc ι) (f : Frame ι) (target : Target) :
    S.Found ((S.perform (s.logRequest q r f (S.requestAction q r f.msg target)) q r f
      (S.requestAction q r f.msg target)).logFound q r target) := by
  intro q' r'
  obtain ⟨hlog, hfound⟩ := logs_perform
    (s.logRequest q r f (S.requestAction q r f.msg target)) q r f (S.requestAction q r f.msg target)
  rw [logFound, hlog, hfound]
  obtain rfl | hq := eq_or_ne q' q
  · obtain rfl | hr := eq_or_ne r' r
    · simpa [logRequest] using List.rel_append (h q' r') (.cons rfl .nil)
    · simpa [logRequest, hr] using h q' r'
  · simpa [logRequest, hq] using h q' r'

theorem reachable_found (h : S.machine.Reachable s) : S.Found s := by
  refine h.invariant ?_ ?_
  · rintro s rfl q r
    exact .nil
  · intro s act t hfound hstep
    rcases step_cases hstep with ⟨p, transceiver, receiver, typeId, functionId, -, -, -, rfl⟩ |
      ⟨p, transceiver, receiver, functionId, -, rfl⟩ | ⟨i, m, -, rfl⟩ | ⟨i, m, -, rfl⟩ |
      ⟨q, r, target, f, -, -, -, -, rfl⟩ | ⟨q, r, outcome, f, -, -, -, hreply⟩ | ⟨q, r, f, -, -, -, rfl⟩
    · exact hfound
    · exact hfound
    · exact hfound
    · exact hfound
    · exact hfound.perform q r f target
    · rcases hreply with ⟨-, rfl⟩ | ⟨m, -, rfl⟩
      · exact hfound
      · exact hfound
    · cases S.replyAction q r f.msg <;> exact hfound

/-- The entry of a request and what was found for it stand in the same place. -/
theorem Found.exists_target (h : S.Found s) {k : ℕ} {act : RequestAction}
    (hk : (s.requestLog q r)[k]? = some (f, act)) :
    ∃ target, (s.found q r)[k]? = some target ∧ S.requestAction q r f.msg target = act := by
  obtain ⟨hlog, hentry⟩ := List.getElem?_eq_some_iff.1 hk
  have hfound : k < (s.found q r).length := (h q r).length_eq ▸ hlog
  have hact := (h q r).get hlog hfound
  rw [List.get_eq_getElem, hentry] at hact
  exact ⟨_, List.getElem?_eq_getElem hfound, hact⟩

/-- A request that is handled is executed if and only if its receiver and its function are found. -/
theorem execute_iff (h : (S.requestAction q r m target).handles = true) :
    S.requestAction q r m target = .execute ↔
      target.receiverExists = true ∧ target.handlerKnown = true := by
  simp only [requestAction, requestReaderFunction] at h ⊢
  split_ifs at h ⊢ <;> simp_all [RequestAction.handles]

theorem relays_of_handles (act : RequestAction) (h : act.handles = true) :
    decide (act = .relay) = false := by
  cases act with
  | execute | reject reason => rfl
  | _ => cases h

theorem isLocalInstance_of_lookup (h : S.replyAction q r m = .lookup) :
    isLocalInstance (S.index q) m.receiver = true := by
  simp only [replyAction, replyReaderFunction] at h
  split_ifs at h with hvalid hlocal
  exact hlocal

section

variable (hq : m.receiver.process = S.index q)

include hq

theorem processIndex_receiver : ProcessIndex m.receiver.process := by
  rw [hq]
  exact S.processIndex q

theorem receiver_ne_anyLocal : m.receiver ≠ anyLocal := by
  intro hany
  have hprocess := processIndex_receiver hq
  rw [hany] at hprocess
  exact anyLocal_not_processIndex hprocess

/-- An instance of a process is local there, and nowhere else. -/
theorem isLocalInstance_receiver (q' : Proc ι) :
    isLocalInstance (S.index q') m.receiver = decide (q' = q) := by
  rw [Bool.eq_iff_iff, isLocalInstance_iff (processIndex_receiver hq), hq, index_inj]
  simp [eq_comm]

/-- In the coordinator's ring, the request is handled by the process of its receiver. -/
theorem handles_coordinator (hsent : S.Sent p m) :
    (S.requestAction q .coordinator m target).handles = true := by
  have hservice : (q = .coordinator && !(decide (Proc.coordinator = q)) &&
      isServiceInstance m.receiver) = false := by
    by_cases hc : q = .coordinator
    · simp [hc]
    · simp [hc]
  simp only [requestAction, requestReaderFunction, hsent.validate_coordinator,
    isLocalInstance_receiver hq, receiver_ne_anyLocal hq, index_inj, hservice, decide_true,
    Bool.not_true, Bool.false_eq_true, if_true, if_false]
  exact handles_found target _ _

/-- In the ring of a leaf, the coordinator's process handles the request or relays it. -/
theorem handles_or_relay {i : ι} (hsent : S.Sent (.leaf i) m) (target : Target) :
    (S.requestAction .coordinator (.leaf i) m target).handles = true ∧ q = .coordinator ∨
      S.requestAction .coordinator (.leaf i) m target = .relay := by
  obtain rfl | hc := eq_or_ne q .coordinator
  · by_cases hservice : isServiceInstance m.receiver = true
    · simp [requestAction, requestReaderFunction, hsent.validate_own, isLocalInstance_receiver hq,
        receiver_ne_anyLocal hq, hservice]
    · left
      refine ⟨?_, rfl⟩
      simp only [requestAction, requestReaderFunction, hsent.validate_own, isLocalInstance_receiver hq,
        receiver_ne_anyLocal hq, hservice, decide_true, Bool.and_false, Bool.not_true,
        Bool.false_eq_true, if_true, if_false]
      exact handles_found target _ _
  · simp [requestAction, requestReaderFunction, hsent.validate_own, isLocalInstance_receiver hq,
      Ne.symm hc]

/-! ### What the readers do with a reply -/

theorem lookup_coordinator : S.replyAction q .coordinator m = .lookup := by
  simp [replyAction, replyReaderFunction, validateReplyMessage, validateRelaySender,
    isLocalInstance_receiver hq, receiver_ne_anyLocal hq]

theorem lookup_or_relay {i : ι} (hsender : m.sender.process = S.index (.leaf i)) :
    S.replyAction .coordinator (.leaf i) m = .lookup ∧ q = .coordinator ∨
      S.replyAction .coordinator (.leaf i) m = .relay := by
  by_cases hc : q = .coordinator
  · simp [replyAction, replyReaderFunction, validateReplyMessage, validateRelaySender, processOf,
      isLocalInstance_receiver hq, receiver_ne_anyLocal hq, hsender, hc]
  · simp [replyAction, replyReaderFunction, validateReplyMessage, validateRelaySender, processOf,
      isLocalInstance_receiver hq, receiver_ne_anyLocal hq, hsender, Ne.symm hc]

end

/-! ### Requests -/

/-- The reply depends on what was sent only. -/
theorem reply_eq {m m' : Message} (h : m.unstamped = m'.unstamped) (typeId : ℕ) :
    m.reply typeId = m'.reply typeId := by
  rw [Message.reply, Message.reply, Message.sender_eq h, Message.receiver_eq h,
    Message.functionId_eq h]

section

variable (h : S.machine.ReachableUnder Genuine s) (hf : f ∈ s.requests p) (hown : f.origin.1 = p)
  (hq : f.msg.receiver.process = S.index q)

include h hf hown hq

/-- Nobody else handles the request. -/
theorem handled_elsewhere {q' : Proc ι} (hne : q' ≠ q) : Hub.Never fun r => s.handled q' r f.origin := by
  have hinv := reachable_inv h.reachable
  intro r
  refine Hub.times_eq_zero ?_
  intro g act hmem ho
  obtain ⟨-, target, rfl⟩ := hinv.requestActs hmem
  have hmsg := hinv.unstamped_eq hf hown (hinv.requests.mem_log hmem) ho
  by_contra hhandles
  rw [Bool.not_eq_false] at hhandles
  have hlocal := isLocalInstance_of_handles hhandles
  rw [Message.receiver_eq hmsg, isLocalInstance_receiver hq, decide_eq_true_eq] at hlocal
  exact hne hlocal

/-- Once all requests have been read, the process of the receiver has handled the request. -/
theorem exists_handled (hread : s.RequestsRead) : ∃ r g act,
    (g, act) ∈ s.requestLog q r ∧ act.handles = true ∧ g.origin = f.origin := by
  have hinv := reachable_inv h.reachable
  have hsent := reachable_sent h
  -- a copy in the coordinator's ring is handled by the reader of that ring
  have hcoordinator : ∀ g ∈ s.requests .coordinator, g.origin = f.origin → ∃ r g act,
      (g, act) ∈ s.requestLog q r ∧ act.handles = true ∧ g.origin = f.origin := by
    intro g hg ho
    obtain ⟨act, hlog⟩ := hinv.requests.exists_mem_log (hread q .coordinator (.inr rfl)) hg
    obtain ⟨-, target, rfl⟩ := hinv.requestActs hlog
    have hmsg := hinv.unstamped_eq hf hown hg ho
    have hgq : g.msg.receiver.process = S.index q := by rw [Message.receiver_eq hmsg, hq]
    exact ⟨.coordinator, g, _, hlog, handles_coordinator hgq (hsent _ g hg trivial), ho⟩
  cases p with
  | coordinator => exact hcoordinator f hf rfl
  | leaf i =>
    have hfsent : S.Sent (.leaf i) f.msg := hown ▸ hsent _ f hf trivial
    obtain ⟨act, hlog⟩ := hinv.requests.exists_mem_log (hread .coordinator (.leaf i) (.inl rfl)) hf
    obtain ⟨-, target, rfl⟩ := hinv.requestActs hlog
    rcases handles_or_relay hq hfsent target with ⟨hhandles, rfl⟩ | hrelay
    · exact ⟨.leaf i, f, _, hlog, hhandles, rfl⟩
    · exact hcoordinator _ (hinv.requests.mem_ring (r := .leaf i) nofun hlog (by simpa using hrelay)) rfl

theorem handled_once (hread : s.RequestsRead) :
    Hub.Once fun r => s.handled q r f.origin := by
  have hinv := reachable_inv h.reachable
  obtain ⟨r, g, act, hlog, hhandles, ho⟩ := exists_handled h hf hown hq hread
  rw [← ho]
  exact hinv.requests.once (fun _ _ => rfl) hinv.request_reads relays_of_handles hlog hhandles

/-- A reply to a request comes from the process of its receiver. -/
theorem replied_by {g : Frame ι} {q' : Proc ι} {a : Answer ι} (hg : g ∈ s.replies q')
    (hgown : g.origin.1 = q') (ha : g.answers = some a) (ho : a.request = f.origin) :
    q' = q ∧ ∃ typeId, g.msg = f.msg.reply typeId := by
  have hinv := reachable_inv h.reachable
  obtain ⟨f', act, typeId, hmem, hhandles, ho', hmsg⟩ :=
    (reachable_answering h).replied q' g a hg hgown ha
  have hsame := hinv.unstamped_eq hf hown (hinv.requests.mem_log hmem) (ho'.trans ho)
  obtain ⟨-, target, rfl⟩ := hinv.requestActs hmem
  have hlocal := isLocalInstance_of_handles hhandles
  rw [Message.receiver_eq hsame, isLocalInstance_receiver hq, decide_eq_true_eq] at hlocal
  exact ⟨hlocal, typeId, by rw [hmsg, reply_eq hsame]⟩

omit hq in
/-- When no handler is being executed, every request that expects a reply has one reply for each time it
was handled. -/
theorem answers_eq_handled (hidle : s.Idle) (hfunction : f.msg.functionId ≠ invalidFunctionId)
    (q r : Proc ι) : s.answers q r f.origin = s.handled q r f.origin := by
  have hinv := reachable_inv h.reachable
  have hbalance := (reachable_answering h).balance q r f.origin
  have hpending : s.pending q r f.origin = 0 := by
    rw [pending, hidle q r]
    rfl
  have howed : s.owed q r f.origin = s.handled q r f.origin := by
    refine List.countP_congr ?_
    rintro ⟨g, act⟩ hmem
    by_cases ho : g.origin = f.origin
    · have hmsg := hinv.unstamped_eq hf hown (hinv.requests.mem_log hmem) ho
      simp [Frame.expects, ho, Message.functionId_eq hmsg, hfunction]
    · simp [Frame.expects, ho]
  omega

end

/-! ### Replies to requests -/

section

variable {g : Frame ι} (hinv : S.Inv s) (hg : g ∈ s.replies q) (hown : g.origin.1 = q)
  (hp : g.msg.receiver.process = S.index p)

include hinv hg hown hp

/-- Nobody but the process of the receiver looks up the return handler. -/
theorem lookups_elsewhere {p' : Proc ι} (hne : p' ≠ p) :
    Hub.Never fun r => s.lookups p' r g.origin := by
  intro r
  refine Hub.times_eq_zero ?_
  intro g' act hmem ho
  obtain ⟨-, rfl⟩ := hinv.replyActs hmem
  have hmsg := hinv.reply_unstamped_eq hg hown (hinv.replies.mem_log hmem) ho
  rw [decide_eq_false_iff_not]
  intro hlookup
  have hlocal := isLocalInstance_of_lookup hlookup
  rw [Message.receiver_eq hmsg, isLocalInstance_receiver hp, decide_eq_true_eq] at hlocal
  exact hne hlocal

/-- Once all replies have been read, the return handler was looked up. -/
theorem exists_lookup (hsender : g.msg.sender.process = S.index q) (hread : s.RepliesRead) :
    ∃ r g', (g', .lookup) ∈ s.replyLog p r ∧ g'.origin = g.origin := by
  have hcoordinator : ∀ g' ∈ s.replies .coordinator, g'.origin = g.origin → ∃ r g',
      (g', .lookup) ∈ s.replyLog p r ∧ g'.origin = g.origin := by
    intro g' hg' ho
    obtain ⟨act, hlog⟩ := hinv.replies.exists_mem_log (hread p .coordinator (.inr rfl)) hg'
    obtain ⟨-, rfl⟩ := hinv.replyActs hlog
    have hmsg := hinv.reply_unstamped_eq hg hown hg' ho
    have hgp : g'.msg.receiver.process = S.index p := by rw [Message.receiver_eq hmsg, hp]
    rw [lookup_coordinator hgp] at hlog
    exact ⟨.coordinator, g', hlog, ho⟩
  cases q with
  | coordinator => exact hcoordinator g hg rfl
  | leaf i =>
    obtain ⟨act, hlog⟩ := hinv.replies.exists_mem_log (hread .coordinator (.leaf i) (.inl rfl)) hg
    obtain ⟨-, rfl⟩ := hinv.replyActs hlog
    rcases lookup_or_relay hp hsender with ⟨hlookup, rfl⟩ | hrelay
    · rw [hlookup] at hlog
      exact ⟨.leaf i, g, hlog, rfl⟩
    · exact hcoordinator _ (hinv.replies.mem_ring (r := .leaf i) nofun hlog (by simpa using hrelay)) rfl

theorem lookups_once (hsender : g.msg.sender.process = S.index q) (hread : s.RepliesRead) :
    Hub.Once fun r => s.lookups p r g.origin := by
  obtain ⟨r, g', hlog, ho⟩ := exists_lookup hinv hg hown hp hsender hread
  rw [← ho]
  refine hinv.replies.once (fun _ _ => rfl) hinv.reply_reads ?_ hlog (by simp)
  intro act hact
  rw [decide_eq_true_eq] at hact
  rw [hact]
  rfl

end

/-- **Routing.** Once everything has been read and no handler is being executed, a request to an
instance has been handled once, by the process of the instance, and by no other: what the log of the
reader says is that it was executed, if the reader found the instance and its function, and rejected
otherwise. If it has a function id, that process has written one reply to it, and nobody else has.
The return handler of every reply to it was looked up once, by the process of the caller, and by no
other. Nothing is relayed twice. -/
theorem requests_routed (h : S.machine.ReachableUnder Genuine s) (hread : s.RequestsRead)
    (hreplies : s.RepliesRead) (hidle : s.Idle) {n : ℕ} (hf : (s.requests p)[n]? = some f)
    (ho : f.origin = (p, n)) (hq : f.msg.receiver.process = S.index q) :
    (Hub.Once fun r => s.handled q r (p, n)) ∧
    (∀ q', q' ≠ q → Hub.Never fun r => s.handled q' r (p, n)) ∧
    (∀ r (k : ℕ) (g : Frame ι) (act : RequestAction), (s.requestLog q r)[k]? = some (g, act) →
      g.origin = (p, n) → act.handles = true → ∃ target : Target, (s.found q r)[k]? = some target ∧
        (act = .execute ↔ target.receiverExists = true ∧ target.handlerKnown = true)) ∧
    (f.msg.functionId ≠ invalidFunctionId → (Hub.Once fun r => s.answers q r (p, n)) ∧
      ∀ q', q' ≠ q → Hub.Never fun r => s.answers q' r (p, n)) ∧
    (∀ q' r g, g ∈ s.replies q' → g.origin.1 = q' → g.answers = some ⟨r, (p, n)⟩ →
      q' = q ∧ (∃ typeId, g.msg = f.msg.reply typeId) ∧
      (Hub.Once fun r => s.lookups p r g.origin) ∧
      ∀ p', p' ≠ p → Hub.Never fun r => s.lookups p' r g.origin) ∧
    ((s.requests .coordinator).map Frame.origin).Nodup ∧
    ((s.replies .coordinator).map Frame.origin).Nodup := by
  have hinv := reachable_inv h.reachable
  have hmem : f ∈ s.requests p := List.mem_of_getElem? hf
  have hown : f.origin.1 = p := by rw [ho]
  have honce := handled_once h hmem hown hq hread
  have hnever := fun q' (hne : q' ≠ q) => handled_elsewhere h hmem hown hq hne
  rw [← ho]
  refine ⟨honce, hnever, ?_, ?_, ?_, hinv.requests.nodup fun _ _ => rfl,
    hinv.replies.nodup fun _ _ => rfl⟩
  · intro r k g act hk _ hhandles
    obtain ⟨target, hfound, rfl⟩ := (reachable_found h.reachable).exists_target hk
    exact ⟨target, hfound, execute_iff hhandles⟩
  · intro hfunction
    have hanswers := answers_eq_handled h hmem hown hidle hfunction
    simp only [hanswers]
    exact ⟨honce, hnever⟩
  · intro q' r g hg hgown ha
    obtain ⟨rfl, typeId, hmsg⟩ := replied_by h hmem hown hq hg hgown ha rfl
    have hsender : g.msg.sender.process = S.index q' := by
      rw [hmsg]
      exact hq
    have hp : g.msg.receiver.process = S.index p := by
      rw [hmsg, ← hown]
      exact (reachable_sent h p f hmem trivial).sender
    refine ⟨rfl, ⟨typeId, hmsg⟩, lookups_once hinv hg hgown hp hsender hreplies, ?_⟩
    intro p' hne
    exact lookups_elsewhere hinv hg hgown hp hne

/-- One leaf calls a function of an instance of the other one, and gets its value. -/
theorem requests_routed_call : ∃ s : State (Fin 2),
    Star.twoLeaves.machine.ReachableUnder Genuine s ∧ s.RequestsRead ∧ s.RepliesRead ∧ s.Idle ∧
    s.requests (.leaf 0) = [⟨⟨⟨3, 5⟩, ⟨4, 7⟩, 200, 9, 0, 0⟩, (.leaf 0, 0), none⟩] ∧
    s.replies (.leaf 1) = [⟨⟨⟨4, 7⟩, ⟨3, 5⟩, notDefinedTypeId, 9, 0, 0⟩, (.leaf 1, 0),
      some ⟨.coordinator, (.leaf 0, 0)⟩⟩] ∧
    (Hub.Once fun r => s.handled (.leaf 1) r (.leaf 0, 0)) ∧
    (∃ target, (s.found (.leaf 1) .coordinator)[0]? = some target ∧ target.receiverExists = true ∧
      target.handlerKnown = true) ∧
    (Hub.Once fun r => s.answers (.leaf 1) r (.leaf 0, 0)) ∧
    Hub.Once fun r => s.lookups (.leaf 0) r (.leaf 1, 0) := by
  obtain ⟨s, hs, hread, hreplies, hidle, hrequest, hreply, hlog⟩ : ∃ s : State (Fin 2),
      Star.twoLeaves.machine.ReachableUnder Genuine s ∧ s.RequestsRead ∧ s.RepliesRead ∧ s.Idle ∧
      s.requests (.leaf 0) = [⟨⟨⟨3, 5⟩, ⟨4, 7⟩, 200, 9, 0, 0⟩, (.leaf 0, 0), none⟩] ∧
      s.replies (.leaf 1) = [⟨⟨⟨4, 7⟩, ⟨3, 5⟩, notDefinedTypeId, 9, 0, 0⟩, (.leaf 1, 0),
        some ⟨.coordinator, (.leaf 0, 0)⟩⟩] ∧
      (s.requestLog (.leaf 1) .coordinator)[0]? =
        some (⟨⟨⟨3, 5⟩, ⟨4, 7⟩, 200, 9, 10, 1⟩, (.leaf 0, 0), none⟩, .execute) :=
    Machine.exists_reachableUnder_of_exec
      [.send (.leaf 0) 5 ⟨4, 7⟩ 200 9, .readRequest .coordinator (.leaf 0) ⟨true, true⟩,
        .readRequest .coordinator .coordinator ⟨true, true⟩,
        .readRequest (.leaf 0) .coordinator ⟨true, true⟩,
        .readRequest (.leaf 1) .coordinator ⟨true, true⟩, .complete (.leaf 1) .coordinator .returned,
        .readReply .coordinator (.leaf 1), .readReply .coordinator .coordinator,
        .readReply (.leaf 0) .coordinator, .readReply (.leaf 1) .coordinator] rfl (by decide +kernel)
  obtain ⟨hhandled, -, hentry, hanswers, hlookups, -⟩ := requests_routed (q := .leaf 1) hs hread hreplies
    hidle (n := 0) (by rw [hrequest]; rfl) rfl rfl
  obtain ⟨-, -, hlookup, -⟩ := hlookups (.leaf 1) .coordinator _ (by rw [hreply]; exact .head _) rfl rfl
  obtain ⟨target, hfound, hexecuted⟩ := hentry .coordinator 0 _ _ hlog rfl rfl
  exact ⟨s, hs, hread, hreplies, hidle, hrequest, hreply, hhandled, ⟨target, hfound, hexecuted.1 rfl⟩,
    (hanswers (by decide)).1, hlookup⟩

/-- The instance that is called is gone: no RPC handler is called anywhere. -/
theorem request_rejected : ∃ s : State (Fin 2),
    Star.twoLeaves.machine.ReachableUnder Genuine s ∧ s.RequestsRead ∧ s.RepliesRead ∧ s.Idle ∧
    s.requests .coordinator = [⟨⟨⟨2, 5⟩, ⟨3, 7⟩, 200, 9, 0, 0⟩, (.coordinator, 0), none⟩] ∧
    ∀ q r, ∀ e ∈ s.requestLog q r, e.2 ≠ .execute :=
  Machine.exists_reachableUnder_of_exec
    [.send .coordinator 5 ⟨3, 7⟩ 200 9, .readRequest .coordinator .coordinator ⟨false, true⟩,
      .readRequest (.leaf 0) .coordinator ⟨false, true⟩,
      .readRequest (.leaf 1) .coordinator ⟨false, true⟩, .readReply .coordinator (.leaf 0)] rfl
    (by decide +kernel)

end Star

end Sintra.Messaging
