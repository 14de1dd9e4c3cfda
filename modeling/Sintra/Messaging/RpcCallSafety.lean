import Sintra.Messaging.RpcCall

/-!
# The outcome of a call

The member `keep_waiting` is the commit point: whoever finds it set under the mutex of the call commits
an outcome and clears it, and everybody else comes too late. The owner cleans up only what is
committed, and reports only what is cleaned up. The invariant says where the call is at each point of
the owner; what follows for its outcome is in `RpcCallOutcome`.
-/

namespace Sintra.Messaging.Rpc

open Function State Machine Option

/-- The report is right for a call with this outcome, none if it is pending. -/
def Report.Agrees (r : Report) (completion : Option Completion) : Prop :=
  match r with
  | .completed => completion ≠ none
  | .deadlineExceeded => completion = none
  | .state found => found = completion
  | .abandon true => completion = some .abandoned
  | .abandon false => completion ≠ none
  | .get found => found = completion ∧ completion ≠ none
  | .timeout | .stopped => completion = some .abandoned

/-- What follows a cleanup is right for a call with this outcome. -/
def Next.Agrees (next : Next) (completion : Option Completion) : Prop :=
  completion ≠ none ∧ ∀ r, next = .report r → r.terminal = true ∧ r.Agrees completion

namespace State

/-- The return handler is in the map, under the function id of the call and no other. -/
def Here (s : State) : Prop :=
  s.functionInstanceId ≠ invalidFunctionId ∧
    ∀ id, s.returnHandlers id = some .this ↔ id = s.functionInstanceId

/-- The return handler is not in the map. -/
def Nowhere (s : State) : Prop := ∀ id, s.returnHandlers id ≠ some .this

/-- Neither the outstanding set nor the map of return handlers has the call. -/
def Absent (s : State) : Prop := s.outstanding = false ∧ s.Nowhere

/-- Where the call is. -/
def Located (s : State) : Prop :=
  match s.pc with
  | .calling => s.Absent
  | .inserted => s.Nowhere
  | .activated => s.Here
  | .unwinding => s.Nowhere
  | .thrown => s.Absent
  | .erasing id _ => s.Here ∧ id = s.functionInstanceId
  | .deactivating id _ => s.outstanding = false ∧ s.Here ∧ id = s.functionInstanceId
  | _ => if s.cleanedUp then s.Absent else s.Here

/-- The owner does not have the handle yet, or will not get it. -/
def Registering (s : State) : Prop :=
  s.pc = .calling ∨ s.pc = .inserted ∨ s.pc = .activated ∨ s.pc = .unwinding ∨ s.pc = .thrown

/-- What the owner is about to do is right for the outcome of the call. -/
def Settled (s : State) : Prop :=
  match s.pc with
  | .reading .get => s.keepWaiting = false
  | .cleanup next => next.Agrees s.completion
  | .erasing _ next | .deactivating _ next => s.cleanedUp = true ∧ next.Agrees s.completion
  | .gone => s.cleanedUp = true
  | _ => True

end State

/-- What holds wherever the owner is. -/
structure Core (s : State) : Prop where
  /-- Nothing is set while the call is pending. -/
  pending : s.keepWaiting = true →
    s.abandoned = false ∧ s.cancelled = false ∧ s.exceptionTypeId = notDefinedTypeId ∧
      s.cleanedUp = false
  /-- The outcome is the one that was committed, and no other was. -/
  commits : s.commits = s.completion.toList
  reports : ∀ r ∈ s.reports, r.terminal = true →
    s.cleanedUp = true ∧ s.Absent ∧ r.Agrees s.completion

structure Inv (s : State) : Prop extends Core s where
  located : s.Located
  settled : s.Settled
  registering : s.Registering → s.reports = [] ∧ s.cleanedUp = false

variable {s t : State} {remoteProcess : ℕ} {pc : Pc}

theorem Inv.located_at (h : Inv s) (hpc : s.pc = pc) : (s.goto pc).Located := by
  subst hpc
  exact h.located

theorem Inv.settled_at (h : Inv s) (hpc : s.pc = pc) : (s.goto pc).Settled := by
  subst hpc
  exact h.settled

theorem registering_of_pc (hpc : t.pc = s.pc) (h : t.Registering) : s.Registering := by
  unfold Registering at h ⊢
  rwa [← hpc]

/-! ### Outcomes -/

theorem completion_eq_none_iff : s.completion = none ↔ s.keepWaiting = true := by
  unfold completion
  split_ifs with h
  all_goals simp [h]

theorem completion_ne_none_iff : s.completion ≠ none ↔ s.keepWaiting = false := by
  rw [Ne, completion_eq_none_iff, Bool.not_eq_true]

/-- The same state of the call but for what the owner does. -/
theorem completion_goto (s : State) (pc : Pc) : (s.goto pc).completion = s.completion := rfl

/-- Someone commits an outcome. -/
structure Commits (s t : State) (o : Completion) : Prop where
  keepWaiting : s.keepWaiting = true
  completion : t.completion = some o
  commits : t.commits = s.commits ++ [o]
  cleanedUp : t.cleanedUp = s.cleanedUp
  functionInstanceId : t.functionInstanceId = s.functionInstanceId
  outstanding : t.outstanding = s.outstanding
  returnHandlers : t.returnHandlers = s.returnHandlers
  pc : t.pc = s.pc
  reports : t.reports = s.reports

theorem Inv.returnHandler (h : Inv s) (reply : Reply) :
    s.returnHandler reply = s ∨ Commits s (s.returnHandler reply) (.returned reply.body) := by
  unfold State.returnHandler
  split_ifs with hwait
  · exact .inl rfl
  · have hpending : s.keepWaiting = true := by simpa using hwait
    obtain ⟨habandoned, hcancelled, htype, -⟩ := h.pending hpending
    refine .inr ⟨hpending, ?_, rfl, rfl, rfl, rfl, rfl, rfl, rfl⟩
    simp [completion, habandoned, hcancelled, htype]

theorem Inv.exceptionHandler (h : Inv s) {reply : Reply}
    (htype : reply.exceptionTypeId ≠ notDefinedTypeId) :
    s.exceptionHandler reply = s ∨
      Commits s (s.exceptionHandler reply) (.remoteException reply.exceptionTypeId reply.what) := by
  unfold State.exceptionHandler
  split_ifs with hwait
  · exact .inl rfl
  · have hpending : s.keepWaiting = true := by simpa using hwait
    obtain ⟨habandoned, hcancelled, -⟩ := h.pending hpending
    refine .inr ⟨hpending, ?_, rfl, rfl, rfl, rfl, rfl, rfl, rfl⟩
    simp [completion, habandoned, hcancelled, htype]

theorem Inv.unblockRpc (h : Inv s) (remoteProcess processInstanceId : ℕ) :
    s.unblockRpc remoteProcess processInstanceId = s ∨
      Commits s (s.unblockRpc remoteProcess processInstanceId) .cancelled := by
  unfold State.unblockRpc
  split_ifs with hscan
  · have hpending : s.keepWaiting = true := by
      simp only [Bool.and_eq_true] at hscan
      exact hscan.1.2
    obtain ⟨habandoned, -⟩ := h.pending hpending
    refine .inr ⟨hpending, ?_, rfl, rfl, rfl, rfl, rfl, rfl, rfl⟩
    simp [completion, habandoned]
  · exact .inl rfl

theorem Inv.abandon (_h : Inv s) : s.abandon = s ∧ s.keepWaiting = false ∨
    Commits s s.abandon .abandoned := by
  unfold State.abandon
  split_ifs with hpending
  · refine .inr ⟨hpending, ?_, rfl, rfl, rfl, rfl, rfl, rfl, rfl⟩
    simp [completion]
  · exact .inl ⟨rfl, by simpa using hpending⟩

/-! ### Where the call is -/

/-- The owner is between the sections of a cleanup. -/
def Pc.cleaning : Pc → Bool
  | .erasing _ _ => true
  | .deactivating _ _ => true
  | _ => false

/-- Where the call is depends on the map, the set and the owner only. -/
theorem located_of_located (hs : s.Located) (hpc : t.pc = s.pc) (hcleaned : t.cleanedUp = s.cleanedUp)
    (hout : t.outstanding = s.outstanding) (hhere : s.Here → t.Here) (hnowhere : s.Nowhere → t.Nowhere)
    (hid : s.pc.cleaning = true → t.functionInstanceId = s.functionInstanceId) : t.Located := by
  have habsent : s.Absent → t.Absent := fun ha => ⟨hout.trans ha.1, hnowhere ha.2⟩
  unfold Located at hs ⊢
  rw [hpc]
  cases hspc : s.pc with
  | calling | thrown => rw [hspc] at hs; exact habsent hs
  | inserted | unwinding => rw [hspc] at hs; exact hnowhere hs
  | activated => rw [hspc] at hs; exact hhere hs
  | erasing id next =>
    rw [hspc] at hs hid
    exact ⟨hhere hs.1, hs.2.trans (hid rfl).symm⟩
  | deactivating id next =>
    rw [hspc] at hs hid
    exact ⟨hout.trans hs.1, hhere hs.2.1, hs.2.2.trans (hid rfl).symm⟩
  | _ =>
    rw [hspc] at hs
    rw [hcleaned]
    split_ifs at hs ⊢
    · exact habsent hs
    · exact hhere hs

/-- Nothing of the call is changed. -/
structure Same (s t : State) : Prop where
  completion : t.completion = s.completion
  cleanedUp : t.cleanedUp = s.cleanedUp
  functionInstanceId : t.functionInstanceId = s.functionInstanceId
  outstanding : t.outstanding = s.outstanding
  returnHandlers : ∀ id, t.returnHandlers id = some .this ↔ s.returnHandlers id = some .this
  abandoned : t.abandoned = s.abandoned
  cancelled : t.cancelled = s.cancelled
  exceptionTypeId : t.exceptionTypeId = s.exceptionTypeId
  commits : t.commits = s.commits

theorem Same.goto (s : State) (pc : Pc) : Same s (s.goto pc) :=
  ⟨rfl, rfl, rfl, rfl, fun _ => Iff.rfl, rfl, rfl, rfl, rfl⟩

theorem Same.report (s : State) (r : Report) : Same s (s.report r) :=
  ⟨rfl, rfl, rfl, rfl, fun _ => Iff.rfl, rfl, rfl, rfl, rfl⟩

section

variable (h : Same s t)

include h

theorem Same.nowhere (hs : s.Nowhere) : t.Nowhere := fun id hid => hs id ((h.returnHandlers id).1 hid)

theorem Same.absent (hs : s.Absent) : t.Absent := ⟨h.outstanding.trans hs.1, h.nowhere hs.2⟩

theorem Same.here (hs : s.Here) : t.Here := by
  refine ⟨by rw [h.functionInstanceId]; exact hs.1, fun id => ?_⟩
  rw [h.returnHandlers, hs.2, h.functionInstanceId]

theorem Same.keepWaiting : t.keepWaiting = true ↔ s.keepWaiting = true := by
  rw [← completion_eq_none_iff, h.completion, completion_eq_none_iff]

theorem Same.located (hpc : t.pc = s.pc) (hs : s.Located) : t.Located :=
  located_of_located hs hpc h.cleanedUp h.outstanding h.here h.nowhere fun _ => h.functionInstanceId

theorem Same.settled (hpc : t.pc = s.pc) (hs : s.Settled) : t.Settled := by
  have hwait : s.keepWaiting = false → t.keepWaiting = false := by
    intro hfalse
    rw [← completion_ne_none_iff, h.completion, completion_ne_none_iff]
    exact hfalse
  unfold Settled at hs ⊢
  rw [hpc, h.completion, h.cleanedUp]
  cases hspc : s.pc with
  | reading job =>
    rw [hspc] at hs
    cases job with
    | get => exact hwait hs
    | _ => trivial
  | _ => rw [hspc] at hs; exact hs

/-- What holds wherever the owner is still holds, if what it says is right. -/
theorem Same.core (hs : Core s) (hreports : ∀ r ∈ t.reports, r.terminal = true →
    r ∈ s.reports ∨ s.cleanedUp = true ∧ s.Absent ∧ r.Agrees s.completion) : Core t where
  pending hpending := by
    rw [h.abandoned, h.cancelled, h.exceptionTypeId, h.cleanedUp]
    exact hs.pending (h.keepWaiting.1 hpending)
  commits := by rw [h.commits, h.completion, hs.commits]
  reports r hr hterminal := by
    rw [h.cleanedUp, h.completion]
    rcases hreports r hr hterminal with hold | ⟨hcleaned, habsent, hagrees⟩
    · obtain ⟨hcleaned, habsent, hagrees⟩ := hs.reports r hold hterminal
      exact ⟨hcleaned, h.absent habsent, hagrees⟩
    · exact ⟨hcleaned, h.absent habsent, hagrees⟩

/-- Somebody does something else. -/
theorem Same.inv (hs : Inv s) (hpc : t.pc = s.pc) (hreports : t.reports = s.reports) : Inv t where
  toCore := h.core hs.toCore fun r hr _ => .inl (by rw [← hreports]; exact hr)
  located := h.located hpc hs.located
  settled := h.settled hpc hs.settled
  registering hreg := by
    rw [hreports, h.cleanedUp]
    exact hs.registering (registering_of_pc hpc hreg)

end

/-- The owner has the handle and is not in the middle of a cleanup. -/
def Pc.ordinary : Pc → Bool
  | .idle | .waiting _ | .woken | .reading _ | .abandoning _ | .cleanup _ | .gone => true
  | _ => false

theorem located_iff (h : s.pc.ordinary = true) :
    s.Located ↔ if s.cleanedUp then s.Absent else s.Here := by
  unfold Located
  cases hpc : s.pc with
  | calling | inserted | activated | unwinding | thrown | erasing id next | deactivating id next =>
      rw [hpc] at h; cases h
  | _ => exact Iff.rfl

theorem not_registering (h : s.pc.ordinary = true) : ¬s.Registering := by
  rintro (hpc | hpc | hpc | hpc | hpc) <;> rw [hpc] at h <;> cases h

/-! ### Steps of others -/

/-- While the call is pending, the owner is not about to say anything about its end. -/
theorem settled_of_pending (h : s.Settled) (hpending : s.keepWaiting = true)
    (hcleaned : s.cleanedUp = false) (hpc : t.pc = s.pc) : t.Settled := by
  have hnone : ¬s.completion ≠ none := fun hne => hne (completion_eq_none_iff.2 hpending)
  unfold Settled at h ⊢
  rw [hpc]
  cases hs : s.pc with
  | reading job =>
    rw [hs] at h
    cases job with
    | get => exact absurd (hpending.symm.trans h) nofun
    | _ => trivial
  | cleanup next => rw [hs] at h; exact absurd h.1 hnone
  | erasing id next | deactivating id next => rw [hs] at h; exact absurd h.2.1 hnone
  | gone => rw [hs] at h; exact absurd (hcleaned.symm.trans h) nofun
  | _ => trivial

theorem Commits.located {o : Completion} (hc : Commits s t o) (hs : s.Located) : t.Located := by
  have hhere : s.Here → t.Here := by
    unfold Here
    rw [hc.functionInstanceId, hc.returnHandlers]
    exact id
  have hnowhere : s.Nowhere → t.Nowhere := by
    unfold Nowhere
    rw [hc.returnHandlers]
    exact id
  exact located_of_located hs hc.pc hc.cleanedUp hc.outstanding hhere hnowhere
    fun _ => hc.functionInstanceId

/-- Before the call is cleaned up, no function of the handle has reported its end. -/
theorem Core.not_terminal (h : Core s) (hcleaned : s.cleanedUp = false) {r : Report}
    (hr : r ∈ s.reports) : ¬r.terminal = true := by
  intro hterminal
  have hdone := (h.reports r hr hterminal).1
  rw [hcleaned] at hdone
  cases hdone

theorem Inv.commit {o : Completion} (h : Inv s) (hc : Commits s t o) : Inv t where
  located := hc.located h.located
  settled := settled_of_pending h.settled hc.keepWaiting (h.pending hc.keepWaiting).2.2.2 hc.pc
  pending hpending := by
    rw [← completion_eq_none_iff, hc.completion] at hpending
    cases hpending
  commits := by
    have hnone : s.completion = none := completion_eq_none_iff.2 hc.keepWaiting
    rw [hc.commits, h.commits, hc.completion, hnone]
    rfl
  registering hreg := by
    rw [hc.reports, hc.cleanedUp]
    exact h.registering (registering_of_pc hc.pc hreg)
  reports r hr hterminal := by
    rw [hc.reports] at hr
    exact absurd hterminal (h.not_terminal (h.pending hc.keepWaiting).2.2.2 hr)

/-- A handler that is moved stays in the map, and one that is gone does not come back. -/
theorem this_replace {newId : ℕ} (hfresh : s.returnHandlers newId = none) (id : ℕ) :
    (s.replaceReturnHandlerId s.functionInstanceId newId).returnHandlers id = some .this ↔
      id = newId ∧ s.returnHandlers s.functionInstanceId = some .this ∨
        id ≠ s.functionInstanceId ∧ s.returnHandlers id = some .this := by
  unfold replaceReturnHandlerId
  cases hold : s.returnHandlers s.functionInstanceId with
  | none =>
    constructor
    · intro hid
      refine .inr ⟨?_, hid⟩
      rintro rfl
      rw [hold] at hid
      cases hid
    · rintro (⟨-, hnone⟩ | ⟨-, hid⟩)
      · cases hnone
      · exact hid
  | some handler =>
    obtain rfl | hnew := eq_or_ne id newId
    · simp [hfresh]
    · obtain rfl | hid := eq_or_ne id s.functionInstanceId
      · simp [hnew]
      · simp [hnew, hid]

theorem replace_eq (s : State) (oldId newId : ℕ) : ∃ returnHandlers,
    s.replaceReturnHandlerId oldId newId = { s with returnHandlers := returnHandlers } := by
  unfold replaceReturnHandlerId
  split
  all_goals exact ⟨_, rfl⟩

variable {next : Next} {id : ℕ} {job : Job}

/-- The end of a cleanup. -/
theorem Core.resume (h : Core s) (hcleaned : s.cleanedUp = true) (habsent : s.Absent)
    (hnext : next.Agrees s.completion) : Inv (s.resume next) := by
  have hlocated : ∀ t : State, Same s t → t.pc.ordinary = true → t.Located := by
    intro t hs hto
    rw [located_iff hto, hs.cleanedUp, if_pos hcleaned]
    exact hs.absent habsent
  have hgoto : ∀ pc : Pc, pc.ordinary = true → (s.goto pc).Settled → Inv (s.goto pc) := by
    intro pc hto hsettled
    have hs := Same.goto s pc
    exact ⟨hs.core h fun r hr _ => .inl hr, hlocated _ hs hto, hsettled,
      fun hreg => absurd hreg (not_registering hto)⟩
  cases next with
  | report r =>
    have hs := Same.report s r
    refine ⟨hs.core h ?_, hlocated _ hs rfl, trivial, fun hreg => absurd hreg (not_registering rfl)⟩
    intro r' hr' hterminal
    rcases List.mem_append.1 hr' with hold | hnew
    · exact .inl hold
    · rw [List.mem_singleton.1 hnew]
      exact .inr ⟨hcleaned, habsent, (hnext.2 r rfl).2⟩
  | read => exact hgoto _ rfl (completion_ne_none_iff.1 hnext.1)
  | get => exact hgoto _ rfl trivial
  | gone => exact hgoto _ rfl hcleaned

theorem Here.not_absent (h : s.Here) : ¬s.Absent := fun habsent => habsent.2 _ ((h.2 _).2 rfl)

/-- The handler that was under its id is nowhere once it is deactivated. -/
theorem Here.deactivate (h : s.Here) : (s.deactivateReturnHandler s.functionInstanceId).Nowhere := by
  intro id hid
  obtain rfl | heq := eq_or_ne id s.functionInstanceId
  · simp [deactivateReturnHandler] at hid
  · rw [deactivateReturnHandler] at hid
    dsimp only at hid
    rw [update_of_ne heq, h.2] at hid
    exact heq hid

section

variable (h : Inv s)

include h

/-- A deferral moves the handler of a pending call. -/
theorem Inv.deferralHandler {reply : Reply} (hvalid : reply.newFunctionId ≠ invalidFunctionId)
    (hfresh : s.returnHandlers reply.newFunctionId = none) : Inv (s.deferralHandler reply) := by
  unfold State.deferralHandler
  split_ifs with hwait
  · exact h
  have hpending : s.keepWaiting = true := by simpa using hwait
  have hcleaned := (h.pending hpending).2.2.2
  have hthis := this_replace hfresh
  obtain ⟨returnHandlers, heq⟩ := replace_eq s s.functionInstanceId reply.newFunctionId
  rw [heq] at hthis ⊢
  have hhere : s.Here → Here
      { s with returnHandlers := returnHandlers, functionInstanceId := reply.newFunctionId } := by
    rintro ⟨-, hiff⟩
    refine ⟨hvalid, fun id => (hthis id).trans ?_⟩
    constructor
    · rintro (⟨hid, -⟩ | ⟨hne, hin⟩)
      · exact hid
      · exact absurd ((hiff id).1 hin) hne
    · rintro rfl
      exact .inl ⟨rfl, (hiff _).2 rfl⟩
  have hnowhere : s.Nowhere → Nowhere
      { s with returnHandlers := returnHandlers, functionInstanceId := reply.newFunctionId } := by
    intro hs id hid
    rcases (hthis id).1 hid with ⟨-, hin⟩ | ⟨-, hin⟩
    all_goals exact hs _ hin
  have hcleaning : ¬s.pc.cleaning = true := by
    intro hpc
    cases hspc : s.pc with
    | erasing id next | deactivating id next =>
      exact absurd (hcleaned.symm.trans (h.settled_at hspc).1) nofun
    | _ => rw [hspc] at hpc; cases hpc
  exact
    { pending := h.pending
      commits := h.commits
      reports := fun r hr hterminal => absurd hterminal (h.not_terminal hcleaned hr)
      located := located_of_located h.located rfl rfl rfl hhere hnowhere fun hpc => absurd hpc hcleaning
      settled := settled_of_pending h.settled hpending hcleaned rfl
      registering := h.registering }

theorem Inv.handle {reply : Reply} (hdeferral : reply.exceptionTypeId = deferralTypeId →
      reply.newFunctionId ≠ invalidFunctionId ∧ s.returnHandlers reply.newFunctionId = none) :
    Inv (s.handle reply) := by
  unfold State.handle
  split_ifs with hreturn hexception
  · rcases h.returnHandler reply with heq | hcommit
    · rw [heq]
      exact h
    · exact h.commit hcommit
  · rcases h.exceptionHandler hreturn with heq | hcommit
    · rw [heq]
      exact h
    · exact h.commit hcommit
  · have hnew := hdeferral (by simpa using hexception)
    exact h.deferralHandler hnew.1 hnew.2

/-! ### Steps of the owner -/

/-- The owner goes on, and the call stays where it is. -/
theorem Inv.proceed (hs : Same s t) (hfrom : s.pc.ordinary = true) (hto : t.pc.ordinary = true)
    (hsettled : t.Settled) (hreports : ∀ r ∈ t.reports, r.terminal = true → r ∈ s.reports) :
    Inv t where
  toCore := hs.core h.toCore fun r hr hterminal => .inl (hreports r hr hterminal)
  located := by
    have hlocated := (located_iff hfrom).1 h.located
    rw [located_iff hto, hs.cleanedUp]
    split_ifs at hlocated ⊢
    · exact hs.absent hlocated
    · exact hs.here hlocated
  settled := hsettled
  registering hreg := absurd hreg (not_registering hto)

theorem Inv.goto (hfrom : s.pc.ordinary = true) (hto : pc.ordinary = true)
    (hsettled : (s.goto pc).Settled) : Inv (s.goto pc) :=
  h.proceed (Same.goto s pc) hfrom hto hsettled fun _ hr _ => hr

/-- A function of the handle says that the call is pending. -/
theorem Inv.report_pending {r : Report} (hfrom : s.pc.ordinary = true) (hr : r.terminal = false) :
    Inv (s.report r) := by
  refine h.proceed (Same.report s r) hfrom rfl trivial ?_
  intro r' hr' hterminal
  rcases List.mem_append.1 hr' with hold | hnew
  · exact hold
  · rw [List.mem_singleton.1 hnew, hr] at hterminal
    cases hterminal

theorem Inv.cleanup (hpc : s.pc = .cleanup next) :
    Inv (if s.cleanedUp then s.resume next
      else { s with cleanedUp := true, pc := .erasing s.functionInstanceId next }) := by
  have hlocated := (located_iff (by rw [hpc]; rfl)).1 h.located
  have hnext : next.Agrees s.completion := h.settled_at hpc
  split_ifs at hlocated ⊢ with hcleaned
  · exact h.toCore.resume hcleaned hlocated hnext
  · have hfalse : s.cleanedUp = false := by simpa using hcleaned
    exact
      { pending := fun hpending => absurd (completion_eq_none_iff.2 hpending) hnext.1
        commits := h.commits
        reports := fun r hr hterminal => absurd hterminal (h.not_terminal hfalse hr)
        located := ⟨hlocated, rfl⟩
        settled := ⟨rfl, hnext⟩
        registering := fun hreg => absurd hreg (by simp [Registering]) }

theorem Inv.erase (hpc : s.pc = .erasing id next) :
    Inv { s with outstanding := false, pc := .deactivating id next } := by
  have hlocated : s.Here ∧ id = s.functionInstanceId := h.located_at hpc
  exact
    { pending := h.pending
      commits := h.commits
      reports := fun r hr hterminal =>
        absurd (h.reports r hr hterminal).2.1 (Here.not_absent hlocated.1)
      located := ⟨rfl, hlocated⟩
      settled := h.settled_at hpc
      registering := fun hreg => absurd hreg (by simp [Registering]) }

theorem Inv.deactivate (hpc : s.pc = .deactivating id next) :
    Inv (if id ≠ invalidFunctionId then (s.deactivateReturnHandler id).resume next
      else s.resume next) := by
  obtain ⟨hout, hhere, rfl⟩ : s.outstanding = false ∧ s.Here ∧ id = s.functionInstanceId :=
    h.located_at hpc
  obtain ⟨hcleaned, hnext⟩ := h.settled_at hpc
  rw [if_pos hhere.1]
  have hcore : Core (s.deactivateReturnHandler s.functionInstanceId) :=
    ⟨h.pending, h.commits, fun r hr hterminal =>
      absurd (h.reports r hr hterminal).2.1 (Here.not_absent hhere)⟩
  exact hcore.resume hcleaned ⟨hout, Here.deactivate hhere⟩ hnext

/-- The section of `abandon`: whoever was waiting has abandoned the call, or the call was over. -/
theorem Inv.abandonStep (hfrom : s.pc.ordinary = true)
    (hnext : ∀ r, next = .report r → r.terminal = true ∧
      (s.keepWaiting = true → r.Agrees (some .abandoned)) ∧
      (s.keepWaiting = false → s.completion ≠ none → r.Agrees s.completion)) :
    Inv (s.abandon.goto (.cleanup next)) := by
  rcases h.abandon with ⟨heq, hover⟩ | hcommit
  · rw [heq]
    have hne := completion_ne_none_iff.2 hover
    refine h.goto hfrom rfl ⟨hne, ?_⟩
    intro r hr
    obtain ⟨hterminal, -, hagrees⟩ := hnext r hr
    exact ⟨hterminal, hagrees hover hne⟩
  · have hinv := h.commit hcommit
    refine hinv.goto (by rw [hcommit.pc]; exact hfrom) rfl ⟨?_, ?_⟩
    · rw [completion_goto, hcommit.completion]
      exact nofun
    · intro r hr
      obtain ⟨hterminal, hagrees, -⟩ := hnext r hr
      rw [completion_goto, hcommit.completion]
      exact ⟨hterminal, hagrees hcommit.keepWaiting⟩

theorem Inv.abandoning (hpc : s.pc = .abandoning job) (hadvance : s.advance = some t) : Inv t := by
  have hfrom : s.pc.ordinary = true := by rw [hpc]; rfl
  unfold advance at hadvance
  rw [hpc] at hadvance
  by_cases hpending : s.keepWaiting = true
  · cases job <;>
      (cases hadvance
       refine h.abandonStep hfrom ?_
       intro r hr
       simp only [hpending, if_true, Next.report.injEq, reduceCtorEq] at hr) <;>
      (subst hr
       exact ⟨rfl, fun _ => rfl, fun hover => absurd (hpending.symm.trans hover) nofun⟩)
  · rw [Bool.not_eq_true] at hpending
    cases job <;>
      (cases hadvance
       refine h.abandonStep hfrom ?_
       intro r hr
       simp only [hpending, Bool.false_eq_true, if_false, Next.report.injEq, reduceCtorEq] at hr) <;>
      (subst hr
       exact ⟨rfl, fun hwait => absurd (hpending.symm.trans hwait) nofun, fun _ hne => hne⟩)

theorem Inv.reading (hpc : s.pc = .reading job) (hadvance : s.advance = some t) : Inv t := by
  have hfrom : s.pc.ordinary = true := by rw [hpc]; rfl
  unfold advance at hadvance
  rw [hpc] at hadvance
  by_cases hpending : s.keepWaiting = true
  · cases job with
    | get => exact absurd (hpending.symm.trans (h.settled_at hpc)) nofun
    | _ =>
      simp only [hpending, if_true] at hadvance
      cases hadvance
      exact h.report_pending hfrom rfl
  · rw [Bool.not_eq_true] at hpending
    have hne := completion_ne_none_iff.2 hpending
    cases job with
    | get =>
      simp only [hpending, Bool.false_eq_true, if_false] at hadvance
      cases hadvance
      refine h.goto hfrom rfl ⟨hne, ?_⟩
      rintro r ⟨⟩
      exact ⟨rfl, rfl, hne⟩
    | _ =>
      simp only [hpending, Bool.false_eq_true, if_false] at hadvance
      cases hadvance
      refine h.goto hfrom rfl ⟨hne, ?_⟩
      rintro r ⟨⟩
      obtain ⟨o, ho⟩ := ne_none_iff_exists'.1 hne
      refine ⟨?_, rfl⟩
      rw [ho]
      rfl

theorem Inv.advance (hadvance : s.advance = some t) : Inv t := by
  cases hpc : s.pc
  case reading job => exact h.reading hpc hadvance
  case abandoning job => exact h.abandoning hpc hadvance
  all_goals simp only [State.advance, hpc] at hadvance
  case woken =>
    cases hadvance
    split_ifs
    all_goals exact h.goto (by rw [hpc]; rfl) rfl trivial
  case cleanup next =>
    have hinv := h.cleanup hpc
    split_ifs at hadvance hinv
    all_goals exact some.inj hadvance ▸ hinv
  case erasing id next => exact some.inj hadvance ▸ h.erase hpc
  case deactivating id next =>
    have hinv := h.deactivate hpc
    split_ifs at hadvance hinv
    all_goals exact some.inj hadvance ▸ hinv
  all_goals cases hadvance

theorem Inv.start (hpc : s.pc = .idle) (job : Job) : Inv (s.start job) := by
  have hfrom : s.pc.ordinary = true := by rw [hpc]; rfl
  cases job
  all_goals exact h.goto hfrom rfl trivial

theorem Inv.wake (hpc : s.pc = .waiting job) (hover : s.keepWaiting = false) :
    Inv (s.wake job) := by
  have hfrom : s.pc.ordinary = true := by rw [hpc]; rfl
  have hne := completion_ne_none_iff.2 hover
  cases job with
  | get | getUntil => exact h.goto hfrom rfl ⟨hne, nofun⟩
  | getStop => exact h.goto hfrom rfl trivial
  | _ =>
    refine h.goto hfrom rfl ⟨hne, ?_⟩
    rintro r ⟨⟩
    exact ⟨rfl, hne⟩

/-! ### Registration -/

/-- During the registration nothing is reported: only the place of the call has to be shown. -/
theorem Inv.register (hreg : s.Registering) {o : Bool} {m : ℕ → Option Handler} {f : ℕ}
    (hlocated : Located
      { s with outstanding := o, returnHandlers := m, functionInstanceId := f, pc := pc })
    (hsettled : Settled
      { s with outstanding := o, returnHandlers := m, functionInstanceId := f, pc := pc }) :
    Inv { s with outstanding := o, returnHandlers := m, functionInstanceId := f, pc := pc } where
  pending := h.pending
  commits := h.commits
  reports r hr := by
    have hnone : r ∈ s.reports := hr
    rw [(h.registering hreg).1] at hnone
    cases hnone
  located := hlocated
  settled := hsettled
  registering _ := h.registering hreg

theorem Inv.insert (hpc : s.pc = .calling) (mustStop : Bool) :
    Inv (if mustStop then s.goto .thrown else { s with outstanding := true, pc := .inserted }) := by
  have habsent : s.Absent := h.located_at hpc
  split_ifs
  · exact h.register (.inl hpc) habsent trivial
  · exact h.register (.inl hpc) habsent.2 trivial

theorem Inv.activate (hpc : s.pc = .inserted) (hvalid : id ≠ invalidFunctionId) :
    Inv { s with
      returnHandlers := update s.returnHandlers id (some .this)
      functionInstanceId := id
      pc := .activated } := by
  have hnowhere : s.Nowhere := h.located_at hpc
  have hiff : ∀ id', update s.returnHandlers id (some .this) id' = some .this ↔ id' = id := by
    intro id'
    by_cases heq : id' = id
    · simp [heq]
    · rw [update_of_ne heq]
      exact ⟨fun hin => absurd hin (hnowhere id'), fun hid => absurd hid heq⟩
  exact h.register (.inr (.inl hpc)) ⟨hvalid, hiff⟩ trivial

/-- The registration fails before the handler is active. -/
theorem Inv.notActivated (hpc : s.pc = .inserted) : Inv (s.goto .unwinding) := by
  have hnowhere : s.Nowhere := h.located_at hpc
  exact h.register (.inr (.inl hpc)) hnowhere trivial

theorem Inv.write (hpc : s.pc = .activated) (throws : Bool) :
    Inv (if throws then (s.deactivateReturnHandler s.functionInstanceId).goto .unwinding
      else s.goto .idle) := by
  have hreg : s.Registering := .inr (.inr (.inl hpc))
  have hhere : s.Here := h.located_at hpc
  split_ifs
  · exact h.register hreg (Here.deactivate hhere) trivial
  · have hlocated : (s.goto .idle).Located := by
      rw [located_iff rfl, if_neg]
      · exact hhere
      · intro hcleaned
        exact absurd ((h.registering hreg).2.symm.trans hcleaned) nofun
    exact h.register hreg hlocated trivial

theorem Inv.unwind (hpc : s.pc = .unwinding) : Inv { s with outstanding := false, pc := .thrown } :=
  h.register (.inr (.inr (.inr (.inl hpc)))) ⟨rfl, h.located_at hpc⟩ trivial

/-! ### Runs -/

/-- What is not part of the call does not matter. -/
theorem Inv.elsewhere (inFlight : List Reply) (stopRequested : Bool) (holder : ℕ) :
    Inv { s with inFlight := inFlight, stopRequested := stopRequested, holder := holder } :=
  Same.inv (s := s) ⟨rfl, rfl, rfl, rfl, fun _ => Iff.rfl, rfl, rfl, rfl, rfl⟩ h rfl rfl

theorem Inv.foreign (hother : s.returnHandlers id ≠ some .this) {handler : Option Handler}
    (hhandler : handler ≠ some .this) :
    Inv { s with returnHandlers := update s.returnHandlers id handler } := by
  refine Same.inv (s := s) ⟨rfl, rfl, rfl, rfl, fun id' => ?_, rfl, rfl, rfl, rfl⟩ h rfl rfl
  obtain rfl | hid := eq_or_ne id' id
  · simp only [update_self]
    exact ⟨fun hin => absurd hin hhandler, fun hin => absurd hin hother⟩
  · simp only [update_of_ne hid]

end

theorem inv_initial {returnHandlers : ℕ → Option Handler}
    (hother : ∀ id, returnHandlers id ≠ some .this) : Inv (initial returnHandlers) where
  pending _ := ⟨rfl, rfl, rfl, rfl⟩
  commits := rfl
  reports r hr := by cases hr
  located := ⟨rfl, hother⟩
  settled := trivial
  registering _ := ⟨rfl, rfl⟩

theorem Inv.step {act : Action} (h : Inv s) (hstep : step remoteProcess s act = some t) : Inv t := by
  unfold Rpc.step at hstep
  cases act with
  | insert mustStop =>
    obtain ⟨hpc, rfl⟩ := of_guard hstep
    exact h.insert hpc mustStop
  | activate functionInstanceId =>
    obtain ⟨hpc, ht⟩ := ite_none_right_eq_some.1 hstep
    cases functionInstanceId with
    | none => exact some.inj ht ▸ h.notActivated hpc
    | some id =>
      obtain ⟨⟨hvalid, -⟩, rfl⟩ := of_guard ht
      exact h.activate hpc hvalid
  | write throws =>
    obtain ⟨hpc, rfl⟩ := of_guard hstep
    exact h.write hpc throws
  | unwind =>
    obtain ⟨hpc, rfl⟩ := of_guard hstep
    exact h.unwind hpc
  | start handle job =>
    obtain ⟨hpc, rfl⟩ := of_guard hstep
    split_ifs
    · exact h.start hpc job
    · exact h
  | move handle =>
    obtain ⟨-, rfl⟩ := of_guard hstep
    exact h.elsewhere s.inFlight s.stopRequested handle
  | wake =>
    cases hpc : s.pc with
    | waiting job =>
      simp only [hpc] at hstep
      split_ifs at hstep with hover hstop
      · exact some.inj hstep ▸ h.wake hpc (by simpa using hover)
      · exact some.inj hstep ▸ h.goto (by rw [hpc]; rfl) rfl trivial
    | _ => simp only [hpc, reduceCtorEq] at hstep
  | deadline =>
    obtain ⟨-, ht⟩ := ite_none_right_eq_some.1 hstep
    split at ht
    · next hpc => exact some.inj ht ▸ h.report_pending (by rw [hpc]; rfl) rfl
    · next hpc => exact some.inj ht ▸ h.goto (by rw [hpc]; rfl) rfl trivial
    · cases ht
  | advance => exact h.advance hstep
  | requestStop => exact some.inj hstep ▸ h.elsewhere s.inFlight true s.holder
  | lookup functionInstanceId reply =>
    obtain ⟨-, rfl⟩ := of_guard hstep
    exact h.elsewhere (s.inFlight ++ [reply]) s.stopRequested s.holder
  | invoke i =>
    simp only [ite_none_right_eq_some, bind_eq_some_iff,
      ite_none_left_eq_some] at hstep
    obtain ⟨-, reply, -, hfresh, ht⟩ := hstep
    cases ht
    have hinv := h.elsewhere (s.inFlight.eraseIdx i) s.stopRequested s.holder
    refine hinv.handle fun hdeferral => ?_
    by_contra hnot
    exact hfresh ⟨hdeferral, hnot⟩
  | unblockRpc processInstanceId =>
    obtain ⟨-, rfl⟩ := of_guard hstep
    rcases h.unblockRpc remoteProcess processInstanceId with heq | hcommit
    · rw [heq]
      exact h
    · exact h.commit hcommit
  | foreign functionInstanceId active =>
    obtain ⟨hother, rfl⟩ := of_guard hstep
    refine h.foreign hother ?_
    split_ifs
    all_goals exact nofun

/-- Where the call is at each point of the owner, and that what will be reported agrees with the
outcome. -/
theorem reachable_inv (h : (machine remoteProcess).Reachable s) : Inv s := by
  refine h.invariant ?_ ?_
  · rintro s ⟨returnHandlers, hother, rfl⟩
    exact inv_initial hother
  · intro s act t hinv hstep
    exact hinv.step hstep

end Sintra.Messaging.Rpc
