import Sintra.Messaging.StarInvariant

/-!
# Provenance of senders

Leaves may write what they like into their rings, with any sender, receiver and stamp. The
coordinator's process relays only what carries a sender of the leaf it reads from, and stamps it with
what it knows of that leaf; what it writes itself carries its own sender.
-/

namespace Sintra.Messaging

open Option

variable {ι : Type}

/-- The frame was written first by the leaf, and is as the leaf has written it but for the stamp. -/
def WrittenBy (rings : Proc ι → List (Frame ι)) (i : ι) (f : Frame ι) : Prop :=
  ∃ n g, (rings (.leaf i))[n]? = some g ∧ f.origin = (.leaf i, n) ∧ f.msg.unstamped = g.msg.unstamped

/-- A copy of what a leaf has written was written by it. -/
theorem WrittenBy.of_copy {rings : Proc ι → List (Frame ι)} {i : ι} {f g : Frame ι}
    (h : WrittenBy rings i g) (ho : f.origin = g.origin) (hmsg : f.msg.unstamped = g.msg.unstamped) :
    WrittenBy rings i f := by
  obtain ⟨n, g', hn, hg, hg'⟩ := h
  exact ⟨n, g', hn, ho.trans hg, hmsg.trans hg'⟩

variable [DecidableEq ι]

namespace Star

variable {S : Star ι} {s : State ι} {p q r : Proc ι} {f : Frame ι} {m : Message} {target : Target}
  {i : ι}

/-! ### Replies of the coordinator's process -/

/-- What the coordinator's process replies, and will reply, does not come from a leaf. -/
structure OwnReplies (S : Star ι) (s : State ι) : Prop where
  replies : ∀ f ∈ s.replies .coordinator, f.origin.1 = .coordinator →
    isLocalInstance (S.index .coordinator) f.msg.sender = true
  executing : ∀ r f, s.executing .coordinator r = some f →
    isLocalInstance (S.index .coordinator) f.msg.receiver = true

theorem OwnReplies.writeReply (h : S.OwnReplies s) {answers : Option (Answer ι)}
    (hm : p = .coordinator → isLocalInstance (S.index .coordinator) m.sender = true) :
    S.OwnReplies (s.writeReply p m answers) where
  replies f hf hown := by
    rcases Hub.mem_rings_write (h := s.replyHub) hf with hold | ⟨rfl, rfl⟩
    · exact h.replies f hold hown
    · exact hm rfl
  executing := h.executing

theorem OwnReplies.setExecuting (h : S.OwnReplies s) {o : Option (Frame ι)}
    (ho : ∀ f, o = some f → isLocalInstance (S.index q) f.msg.receiver = true) :
    S.OwnReplies (s.setExecuting q r o) where
  replies := h.replies
  executing r' f hf := by
    obtain rfl | hq := eq_or_ne .coordinator q
    · by_cases hr : r' = r
      · subst hr
        exact ho f (by simpa [State.setExecuting] using hf)
      · exact h.executing r' f (by simpa [State.setExecuting, hr] using hf)
    · exact h.executing r' f (by simpa [State.setExecuting, Function.update_of_ne hq] using hf)

theorem sender_reply (m : Message) (typeId : ℕ) : (m.reply typeId).sender = m.receiver := rfl

theorem sender_rpcHandler {fireAndForget : Bool} {outcome : Outcome} {m' : Message}
    (h : rpcHandler fireAndForget m outcome = some m') : m'.sender = m.receiver := by
  cases outcome with
  | unavailable | returned | thrown exceptionTypeId =>
    simp only [rpcHandler, ite_none_left_eq_some, some.injEq] at h
    rw [← h.2, sender_reply]
  | deferred =>
    simp only [rpcHandler, some.injEq] at h
    rw [← h, sender_reply]

theorem OwnReplies.perform (h : S.OwnReplies s) (f : Frame ι) (target : Target) :
    S.OwnReplies (S.perform (s.logRequest q r f (S.requestAction q r f.msg target)) q r f
      (S.requestAction q r f.msg target)) := by
  have hlog : S.OwnReplies (s.logRequest q r f (S.requestAction q r f.msg target)) :=
    ⟨h.replies, h.executing⟩
  revert hlog
  cases hact : S.requestAction q r f.msg target with
  | relay => exact fun hlog => ⟨hlog.replies, hlog.executing⟩
  | reject reason =>
    intro hlog
    rw [Star.perform]
    split_ifs
    · exact hlog
    · refine hlog.writeReply fun hq => ?_
      subst hq
      exact isLocalInstance_of_handles (by rw [hact]; rfl)
  | execute =>
    intro hlog
    refine hlog.setExecuting ?_
    rintro g ⟨⟩
    exact isLocalInstance_of_handles (by rw [hact]; rfl)
  | drop | ignore | dispatch scopeIds => exact id

/-- A relayed reply is one of a leaf. -/
theorem OwnReplies.performReply (h : S.OwnReplies s) (hinv : S.Inv s)
    (hnext : s.nextReply q r = some f) :
    S.OwnReplies ((s.logReply q r f (S.replyAction q r f.msg)).performReply q f
      (S.replyAction q r f.msg)) := by
  cases hact : S.replyAction q r f.msg with
  | relay =>
    obtain ⟨rfl, hr⟩ := replyAction_relay hact
    refine ⟨?_, h.executing⟩
    intro g hg hown
    rcases Hub.mem_rings_write (h := (s.logReply .coordinator r f .relay).replyHub) hg with
      hold | ⟨-, rfl⟩
    · exact h.replies g hold hown
    · have hself : f.origin.1 = .coordinator := hown
      rw [hinv.replies.own r _ f hnext (.inl hr)] at hself
      exact absurd hself hr
  | drop | ignore | lookup => exact ⟨h.replies, h.executing⟩

theorem OwnReplies.step {t : State ι} {act : Action ι} (h : S.OwnReplies s) (hinv : S.Inv s)
    (hstep : S.step s act = some t) : S.OwnReplies t := by
  rcases step_cases hstep with ⟨p, transceiver, receiver, typeId, functionId, -, -, -, rfl⟩ |
    ⟨p, transceiver, receiver, functionId, -, rfl⟩ | ⟨i, m, -, rfl⟩ | ⟨i, m, -, rfl⟩ |
    ⟨q, r, target, f, -, -, -, -, rfl⟩ | ⟨q, r, outcome, f, -, hf, -, hreply⟩ |
    ⟨q, r, f, -, -, hnext, rfl⟩
  · exact ⟨h.replies, h.executing⟩
  · refine h.writeReply fun hp => ?_
    subst hp
    simp [isLocalInstance]
  · exact ⟨h.replies, h.executing⟩
  · exact h.writeReply fun hp => by cases hp
  · exact { h.perform f target with }
  · have hidle : S.OwnReplies (s.setExecuting q r none) := h.setExecuting fun _ hf => by cases hf
    rcases hreply with ⟨-, rfl⟩ | ⟨m, hm, rfl⟩
    · exact hidle
    · refine hidle.writeReply fun hq => ?_
      subst hq
      rw [sender_rpcHandler hm]
      exact h.executing r f hf
  · exact h.performReply hinv hnext

theorem reachable_ownReplies (h : S.machine.Reachable s) : S.OwnReplies s := by
  refine Machine.ReachableUnder.invariant ?_ ?_ h
  · rintro s rfl
    exact ⟨fun _ hf => (nomatch hf), fun _ _ hf => (nomatch hf)⟩
  · intro s act t hs hown _ hstep
    exact hown.step (reachable_inv hs) hstep

/-! ### Where messages come from -/

omit [DecidableEq ι] in
/-- An instance of a leaf is not local in the coordinator's process. -/
theorem not_isLocalInstance {iid : InstanceId} (h : iid.process = S.index (.leaf i)) :
    isLocalInstance (S.index .coordinator) iid = false := by
  have hprocess : ProcessIndex iid.process := by
    rw [h]
    exact S.processIndex _
  rw [Bool.eq_false_iff, Ne, isLocalInstance_iff hprocess, h, index_inj]
  exact nofun

/-- What is in the ring of a leaf was written by it. -/
theorem writtenBy_of_mem {V : Type} {h : Hub (Proc ι) (Frame ι) V} {copy : Proc ι → Frame ι → Frame ι}
    {relays : V → Bool} (hinv : h.Inv .coordinator Frame.origin copy relays)
    (hf : f ∈ h.rings (.leaf i)) : WrittenBy h.rings i f := by
  obtain ⟨n, hn⟩ := List.mem_iff_getElem?.1 hf
  exact ⟨n, f, hn, hinv.own (.leaf i) n f hn (.inl nofun), rfl⟩

/-- A request in the coordinator's ring with a sender in a leaf was written by that leaf. -/
theorem writtenBy_request (h : S.machine.Reachable s) (hf : f ∈ s.requests .coordinator)
    (hsender : f.msg.sender.process = S.index (.leaf i)) : WrittenBy s.requests i f := by
  have hinv := reachable_inv h
  have hown : f.origin.1 = .leaf i := by
    rw [sender_of_mem h hf, index_inj] at hsender
    exact hsender
  obtain ⟨g, hlog, rfl, -⟩ := hinv.relayed_request hf hown
  exact (writtenBy_of_mem hinv.requests (hinv.requests.mem_log hlog)).of_copy rfl rfl

/-- A reply in the coordinator's ring with a sender in a leaf was written by that leaf. -/
theorem writtenBy_reply (h : S.machine.Reachable s) (hf : f ∈ s.replies .coordinator)
    (hsender : f.msg.sender.process = S.index (.leaf i)) : WrittenBy s.replies i f := by
  have hinv := reachable_inv h
  cases hown : f.origin.1 with
  | coordinator =>
    have hlocal := (reachable_ownReplies h).replies f hf hown
    rw [not_isLocalInstance hsender] at hlocal
    cases hlocal
  | leaf j =>
    obtain ⟨g, act, hlog, hrelay, hcopy⟩ := hinv.replies.of_mem_ring hf (by rw [hown]; exact nofun)
    obtain rfl : act = .relay := by simpa using hrelay
    rw [hown] at hlog hcopy
    obtain ⟨-, hact⟩ := hinv.replyActs hlog
    have hsame : f.msg.sender = g.msg.sender := by
      rw [hcopy]
      rfl
    rcases replyAction_valid (by rw [hact]; exact nofun) with hj | hj
    · cases hj
    · rw [← hsame, hsender, index_inj] at hj
      obtain rfl : i = j := Proc.leaf.inj hj
      rw [hcopy]
      exact (writtenBy_of_mem hinv.replies (hinv.replies.mem_log hlog)).of_copy rfl rfl

/-- **Provenance.** Leaves may forge. Whatever a process has dispatched, executed or handed to a return
handler with a sender in a leaf was written by that leaf into its own ring, and every request on the
coordinator's ring with a sender in a leaf has the stamp of the reader for that leaf. -/
theorem provenance (h : S.machine.Reachable s) (i : ι) :
    (∀ q r f act, (f, act) ∈ s.requestLog q r → act ≠ .drop →
      f.msg.sender.process = S.index (.leaf i) → WrittenBy s.requests i f) ∧
    (∀ q r f act, (f, act) ∈ s.replyLog q r → act ≠ .drop →
      f.msg.sender.process = S.index (.leaf i) → WrittenBy s.replies i f) ∧
    ∀ f ∈ s.requests .coordinator, f.msg.sender.process = S.index (.leaf i) →
      f.msg.custodyIdentity = S.custodyIdentity i ∧ f.msg.occurrence = S.occurrence i := by
  have hinv := reachable_inv h
  refine ⟨?_, ?_, ?_⟩
  · intro q r f act hmem hdrop hsender
    obtain ⟨-, target, rfl⟩ := hinv.requestActs hmem
    have hring : f ∈ s.requests r := hinv.requests.mem_log hmem
    rcases requestAction_valid hdrop with rfl | hr
    · exact writtenBy_request h hring hsender
    · rw [hsender, index_inj] at hr
      subst hr
      exact writtenBy_of_mem hinv.requests hring
  · intro q r f act hmem hdrop hsender
    obtain ⟨-, rfl⟩ := hinv.replyActs hmem
    have hring : f ∈ s.replies r := hinv.replies.mem_log hmem
    rcases replyAction_valid hdrop with rfl | hr
    · exact writtenBy_reply h hring hsender
    · rw [hsender, index_inj] at hr
      subst hr
      exact writtenBy_of_mem hinv.replies hring
  · intro f hf hsender
    have hown : f.origin.1 = .leaf i := by
      rw [sender_of_mem h hf, index_inj] at hsender
      exact hsender
    obtain ⟨g, -, rfl, -⟩ := hinv.relayed_request hf hown
    exact ⟨rfl, rfl⟩

/-- A leaf forges an event of the other one, which is dropped, and one of its own with a stamp. -/
theorem provenance_forged : ∃ s : State (Fin 2), Star.twoLeaves.machine.Reachable s ∧
    (s.requests (.leaf 0)).map (fun f => f.msg.sender.process) = [4, 3] ∧
    ∃ f ∈ s.requests .coordinator, f.msg.sender.process = Star.twoLeaves.index (.leaf 0) ∧
      f.msg.custodyIdentity = 10 ∧ f.msg.occurrence = 1 := by
  obtain ⟨s, hs, hring, hcopy⟩ : ∃ s : State (Fin 2), Star.twoLeaves.machine.Reachable s ∧
      (s.requests (.leaf 0)).map (fun f => f.msg.sender.process) = [4, 3] ∧
      ∃ f ∈ s.requests .coordinator, f.msg.sender.process = Star.twoLeaves.index (.leaf 0) :=
    Machine.exists_reachable_of_exec
      [.forge 0 ⟨⟨4, 5⟩, anyRemote, 100, 0, 11, 1⟩, .forge 0 ⟨⟨3, 5⟩, anyRemote, 100, 0, 11, 1⟩,
        .readRequest .coordinator (.leaf 0) ⟨false, false⟩,
        .readRequest .coordinator (.leaf 0) ⟨false, false⟩] rfl (by decide +kernel)
  obtain ⟨f, hf, hsender⟩ := hcopy
  exact ⟨s, hs, hring, f, hf, hsender, (provenance hs 0).2.2 f hf hsender⟩

end Star

end Sintra.Messaging
