import Sintra.Messaging.RpcCallSafety

/-!
# One outcome for each call

What a step can add to the history of a call: an outcome, if there was none, and a report that agrees
with the outcome.
-/

namespace Sintra.Messaging.Rpc

open State Machine Option

variable {s t : State} {remoteProcess : ℕ}

/-- What a step adds. -/
structure Progress (s t : State) : Prop where
  commits : s.commits <+: t.commits
  /-- A report that is not about the end of the call is made while the call is pending. -/
  reports : t.reports = s.reports ∨ ∃ r, t.reports = s.reports ++ [r] ∧
    (r.terminal = true ∨ r.Agrees t.completion)

theorem Progress.of_eq (hcommits : t.commits = s.commits) (hreports : t.reports = s.reports) :
    Progress s t := ⟨hcommits ▸ List.prefix_rfl, .inl hreports⟩

theorem Progress.of_commits {o : Completion} (hcommits : t.commits = s.commits ++ [o])
    (hreports : t.reports = s.reports) : Progress s t :=
  ⟨hcommits ▸ List.prefix_append _ _, .inl hreports⟩

/-! ### Steps -/

theorem progress_handle (s : State) (reply : Reply) : Progress s (s.handle reply) := by
  unfold handle returnHandler exceptionHandler deferralHandler
  obtain ⟨returnHandlers, heq⟩ := replace_eq s s.functionInstanceId reply.newFunctionId
  rw [heq]
  split_ifs
  · exact .of_eq rfl rfl
  · exact .of_commits rfl rfl
  · exact .of_eq rfl rfl
  · exact .of_commits rfl rfl
  · exact .of_eq rfl rfl
  · exact .of_eq rfl rfl

theorem progress_unblockRpc (s : State) (processInstanceId : ℕ) :
    Progress s (s.unblockRpc remoteProcess processInstanceId) := by
  unfold unblockRpc
  split_ifs
  · exact .of_commits rfl rfl
  · exact .of_eq rfl rfl

theorem progress_abandon (s : State) (pc : Pc) : Progress s (s.abandon.goto pc) := by
  unfold abandon
  split_ifs
  · exact .of_commits rfl rfl
  · exact .of_eq rfl rfl

/-- What is reported at the end of a cleanup is about the end of the call. -/
theorem progress_resume {next : Next} (hnext : next.Agrees s.completion) :
    Progress s (s.resume next) := by
  cases next with
  | report r => exact ⟨List.prefix_rfl, .inr ⟨r, rfl, .inl (hnext.2 r rfl).1⟩⟩
  | _ => exact .of_eq rfl rfl

theorem progress_report {r : Report} (hr : r.Agrees s.completion) : Progress s (s.report r) :=
  ⟨List.prefix_rfl, .inr ⟨r, rfl, .inr hr⟩⟩

theorem progress_advance (h : Inv s) (hadvance : s.advance = some t) : Progress s t := by
  unfold advance at hadvance
  cases hpc : s.pc
  all_goals rw [hpc] at hadvance
  case woken => exact some.inj hadvance ▸ .of_eq rfl rfl
  case reading job =>
    by_cases hpending : s.keepWaiting = true
    · have hnone := completion_eq_none_iff.2 hpending
      cases job with
      | get => exact absurd (hpending.symm.trans (h.settled_at hpc)) nofun
      | _ =>
        simp only [hpending, if_true] at hadvance
        exact some.inj hadvance ▸ progress_report hnone.symm
    · cases job with
      | get =>
        simp only [hpending] at hadvance
        exact some.inj hadvance ▸ .of_eq rfl rfl
      | _ =>
        simp only [hpending] at hadvance
        exact some.inj hadvance ▸ .of_eq rfl rfl
  case abandoning job =>
    cases job with
    | _ => exact some.inj hadvance ▸ progress_abandon s _
  case cleanup next =>
    dsimp only at hadvance
    split_ifs at hadvance
    · exact some.inj hadvance ▸ progress_resume (h.settled_at hpc)
    · exact some.inj hadvance ▸ .of_eq rfl rfl
  case erasing id next => exact some.inj hadvance ▸ .of_eq rfl rfl
  case deactivating id next =>
    obtain ⟨-, hnext⟩ := h.settled_at hpc
    dsimp only at hadvance
    split_ifs at hadvance
    · have hprogress := progress_resume (s := s.deactivateReturnHandler id) hnext
      exact some.inj hadvance ▸ ⟨hprogress.commits, hprogress.reports⟩
    · exact some.inj hadvance ▸ progress_resume hnext
  all_goals cases hadvance

variable {act : Action}

/-- Outcomes and reports are only added, one report at a time. -/
theorem step_progress (h : Inv s) (hstep : step remoteProcess s act = some t) :
    Progress s t := by
  unfold Rpc.step at hstep
  cases act with
  | insert mustStop | write throws =>
    obtain ⟨-, rfl⟩ := of_guard hstep
    split_ifs
    all_goals exact .of_eq rfl rfl
  | activate functionInstanceId =>
    obtain ⟨-, ht⟩ := ite_none_right_eq_some.1 hstep
    cases functionInstanceId with
    | none => exact some.inj ht ▸ .of_eq rfl rfl
    | some id =>
      obtain ⟨-, rfl⟩ := of_guard ht
      exact .of_eq rfl rfl
  | unwind | move handle | lookup functionInstanceId reply | foreign functionInstanceId active =>
    obtain ⟨-, rfl⟩ := of_guard hstep
    exact .of_eq rfl rfl
  | start handle job =>
    obtain ⟨-, rfl⟩ := of_guard hstep
    split_ifs
    · cases job with
      | _ => exact .of_eq rfl rfl
    · exact .of_eq rfl rfl
  | wake =>
    cases hpc : s.pc with
    | waiting job =>
      simp only [hpc] at hstep
      split_ifs at hstep
      · cases hstep
        cases job with
        | _ => exact .of_eq rfl rfl
      · exact some.inj hstep ▸ .of_eq rfl rfl
    | _ => simp only [hpc, reduceCtorEq] at hstep
  | deadline =>
    obtain ⟨hpending, ht⟩ := ite_none_right_eq_some.1 hstep
    split at ht
    · exact some.inj ht ▸ progress_report (completion_eq_none_iff.2 hpending)
    · exact some.inj ht ▸ .of_eq rfl rfl
    · cases ht
  | advance => exact progress_advance h hstep
  | requestStop => exact some.inj hstep ▸ .of_eq rfl rfl
  | invoke i =>
    simp only [ite_none_right_eq_some, bind_eq_some_iff,
      ite_none_left_eq_some] at hstep
    obtain ⟨-, reply, -, -, ht⟩ := hstep
    have hprogress := progress_handle { s with inFlight := s.inFlight.eraseIdx i } reply
    exact some.inj ht ▸ ⟨hprogress.commits, hprogress.reports⟩
  | unblockRpc processInstanceId =>
    obtain ⟨-, rfl⟩ := of_guard hstep
    exact progress_unblockRpc s processInstanceId

/-! ### The outcome -/

/-- **The first outcome stays.** -/
theorem completion_stable {o : Completion} (h : Inv s)
    (hstep : step remoteProcess s act = some t) (ho : s.completion = some o) :
    t.completion = some o := by
  have hgrow := (step_progress h hstep).commits
  rw [h.commits, (h.step hstep).commits, ho] at hgrow
  cases ht : t.completion with
  | none => rw [ht] at hgrow; simp at hgrow
  | some o' =>
    rw [ht] at hgrow
    obtain rfl : o = o' := by simpa using hgrow
    rfl

/-- Whatever is reported in a step agrees with the outcome. -/
theorem report_agrees {r : Report} (h : Inv s)
    (hstep : step remoteProcess s act = some t) (hr : t.reports = s.reports ++ [r]) :
    r.Agrees t.completion := by
  rcases (step_progress h hstep).reports with hsame | ⟨r', hr', hagrees⟩
  · rw [hsame] at hr
    exact absurd hr (by simp)
  · rw [hr', List.append_cancel_left_eq, List.singleton_inj] at hr
    subst hr
    rcases hagrees with hterminal | hagrees
    · have hmem : r' ∈ t.reports := by rw [hr']; simp
      exact ((h.step hstep).reports r' hmem hterminal).2.2
    · exact hagrees

/-- The owner has the handle, or is about to get it. -/
def State.Registered (s : State) : Prop :=
  s.pc ≠ .calling ∧ s.pc ≠ .inserted ∧ s.pc ≠ .unwinding ∧ s.pc ≠ .thrown

/-- The handler of a pending call is in the map, under the function id of the call. -/
theorem here_of_pending (h : Inv s) (hpending : s.keepWaiting = true) (hreg : s.Registered) :
    s.Here := by
  have hcleaned := (h.pending hpending).2.2.2
  obtain ⟨hcalling, hinserted, hunwinding, hthrown⟩ := hreg
  cases hpc : s.pc with
  | calling => exact absurd hpc hcalling
  | inserted => exact absurd hpc hinserted
  | unwinding => exact absurd hpc hunwinding
  | thrown => exact absurd hpc hthrown
  | activated => exact h.located_at hpc
  | erasing id next => exact (h.located_at hpc).1
  | deactivating id next => exact (h.located_at hpc).2.1
  | _ =>
    have hlocated := (located_iff (by rw [hpc]; rfl)).1 h.located
    rwa [hcleaned] at hlocated

/-- The call is nowhere once the handle was destroyed, or if the call has thrown. -/
theorem absent_of_ended (h : Inv s) (hpc : s.pc = .thrown ∨ s.pc = .gone) : s.Absent := by
  rcases hpc with hpc | hpc
  · exact h.located_at hpc
  · have hcleaned : s.cleanedUp = true := h.settled_at hpc
    have hlocated := (located_iff (by rw [hpc]; rfl)).1 h.located
    rwa [hcleaned] at hlocated

/-- **One outcome.** At most one outcome was committed, and it is the one that is found; the first one
stays. Every report agrees with it: one about the end of the call for ever, and any report when it is
made. While the call is pending, its handler is in the map exactly under its current function id. Once
the end of the call was reported, the handle was destroyed, or the call has thrown, neither the
outstanding set nor the map of return handlers has the call. -/
theorem single_outcome (h : (machine remoteProcess).Reachable s) :
    s.commits = s.completion.toList ∧
    (∀ act t o, step remoteProcess s act = some t → s.completion = some o → t.completion = some o) ∧
    (∀ r ∈ s.reports, r.terminal = true → r.Agrees s.completion) ∧
    (∀ act t r, step remoteProcess s act = some t → t.reports = s.reports ++ [r] →
      r.Agrees t.completion) ∧
    (s.completion = none → s.Registered → s.functionInstanceId ≠ invalidFunctionId ∧
      ∀ id, s.returnHandlers id = some .this ↔ id = s.functionInstanceId) ∧
    ((∃ r ∈ s.reports, r.terminal = true) ∨ s.pc = .thrown ∨ s.pc = .gone →
      s.outstanding = false ∧ ∀ id, s.returnHandlers id ≠ some .this) := by
  have hinv := reachable_inv h
  refine ⟨hinv.commits, ?_, ?_, ?_, ?_, ?_⟩
  · intro act t o hstep ho
    exact completion_stable hinv hstep ho
  · intro r hr hterminal
    exact (hinv.reports r hr hterminal).2.2
  · intro act t r hstep hr
    exact report_agrees hinv hstep hr
  · intro hnone hreg
    exact here_of_pending hinv (completion_eq_none_iff.1 hnone) hreg
  · rintro (⟨r, hr, hterminal⟩ | hended)
    · exact (hinv.reports r hr hterminal).2.1
    · exact absent_of_ended hinv hended

/-- A call is deferred and then abandoned at its deadline; the value that arrives comes too late. -/
theorem single_outcome_timeout : ∃ s, (machine 4).Reachable s ∧ .timeout ∈ s.reports ∧
    s.completion = some .abandoned ∧ s.outstanding = false := by
  obtain ⟨s, hs, hr, ho⟩ : ∃ s, (machine 4).Reachable s ∧ .timeout ∈ s.reports ∧
      s.completion = some .abandoned :=
    exists_reachable_of_exec
      [.insert false, .activate (some 7), .write false, .start 0 .getUntil,
        .lookup 7 ⟨deferralTypeId, 0, "", 8⟩, .invoke 0, .lookup 8 ⟨notDefinedTypeId, 42, "", 0⟩,
        .deadline, .advance, .invoke 0, .advance, .advance, .advance]
      ⟨fun _ => none, fun _ => nofun, rfl⟩ (by decide +kernel)
  obtain ⟨-, -, -, -, -, habsent⟩ := single_outcome hs
  exact ⟨s, hs, hr, ho, (habsent (.inl ⟨_, hr, rfl⟩)).1⟩

end Sintra.Messaging.Rpc
