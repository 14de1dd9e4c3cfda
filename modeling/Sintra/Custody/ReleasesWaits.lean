import Sintra.Custody.Releases

/-!
# The release worker sleeps through nothing

* `reset_wakes_nobody`, the counterexample without that condition: the retirement was claimed before
  the release was requested, so that its reset carries generation zero, marks no attempt as failing
  and notifies nobody, while there is a reader to be joined again.

A step wakes every worker, or leaves somebody about to notify, or it is quiet: it makes nobody wait
and leaves what has been planned as it was (`Settled.of_quiet`). Steps that change the plan without a
notification of their own are taken while no attempt runs (`Settled.of_not_running`).
-/

namespace Sintra.Custody

open Function Machine Option

variable {c c' : CustodyRecord} {roster : List ReleaseTarget} {g : UInt64} {applied : Bool}

/-! ### When the worker waits -/

theorem CustodyRecord.plan_eq_wait_iff :
    c.plan roster g applied = .waitForChange ↔
      c.releaseState.running g = true ∧ c.allTerminal = false ∧
        ¬(c.releaseState.cleanupRequested = true ∧ (!applied) = true) ∧
        roster.filter (c.currentTarget applied) = [] ∧ roster.filter c.historicalTarget = [] := by
  unfold plan
  split_ifs <;> simp_all

/-- The plan is to wait as long as there is no new target. -/
theorem CustodyRecord.plan_wait_of_targets (hrelease : c'.releaseState = c.releaseState)
    (hterminal : c'.allTerminal = true → c.allTerminal = true)
    (hcurrent : ∀ b x, c'.currentTarget b x = true → c.currentTarget b x = true)
    (hhistorical : ∀ x, c'.historicalTarget x = true → c.historicalTarget x = true)
    (h : c.plan roster g applied = .waitForChange) : c'.plan roster g applied = .waitForChange := by
  obtain ⟨hrunning, hopen, hcleanup, hnone, hnone'⟩ := plan_eq_wait_iff.1 h
  rw [List.filter_eq_nil_iff] at hnone hnone'
  refine plan_eq_wait_iff.2 ⟨hrelease ▸ hrunning, ?_, hrelease ▸ hcleanup, ?_, ?_⟩
  · exact Bool.eq_false_iff.2 fun hall => Bool.eq_false_iff.1 hopen (hterminal hall)
  · exact List.filter_eq_nil_iff.2 fun x hx hc => hnone x hx (hcurrent applied x hc)
  · exact List.filter_eq_nil_iff.2 fun x hx hc => hnone' x hx (hhistorical x hc)

/-- A claim takes the transport out of the plan. -/
theorem CustodyRecord.plan_wait_of_begin {k : OccurrenceKey} {e γ : UInt64} {reader : Option Reader}
    (hbegin : c.beginRetirement k e = some (γ, reader, c'))
    (h : c.plan roster g applied = .waitForChange) : c'.plan roster g applied = .waitForChange := by
  obtain ⟨o, hk, hphase, -, rfl⟩ := beginRetirement_eq_some hbegin
  refine plan_wait_of_targets (c := c) rfl (fun hall => ?_) (fun b x hx => ?_) (fun x hx => ?_) h
  · rw [allTerminal_iff] at hall ⊢
    intro k' o' hk'
    obtain rfl | hne := eq_or_ne k' k
    · obtain rfl := mem_unique hk hk'
      have ho := hall k' _ (find_set_self c k' _)
      simp_all [Occurrence.terminal, Transport.fullyRetired]
    · exact hall k' o' ((find_set_of_ne c _ hne).trans hk')
  · by_cases hne : x.key = k
    · simp [currentTarget, hne, Transport.retirementStarted] at hx
    · simpa only [currentTarget, find_set_of_ne c _ hne] using hx
  · by_cases hne : x.key = k
    · simp [historicalTarget, hne, Transport.readyToRetire] at hx
    · simpa only [historicalTarget, find_set_of_ne c _ hne] using hx

theorem CustodyRecord.not_running_of_request {mode : ReleaseMode} (h : (c.request mode).1 ≠ 0) :
    c.releaseState.hasAttempt .running = false := by
  change (c.releaseState.request mode).1 ≠ 0 at h
  cases hr : c.releaseState with
  | opened | released => rfl
  | releasing r =>
    rw [hr, ReleaseState.request] at h
    split_ifs at h with hattempt
    · exact absurd rfl h
    · rw [ReleaseState.hasAttempt, not_not.1 hattempt]
      rfl

theorem ReleaseState.markFailing_of_running {r : ReleaseState} (h : r.running g = true) :
    r.markFailing g ≠ none := by
  obtain ⟨hne, x, rfl, hgen, hattempt⟩ := running_iff.1 h
  rw [markFailing, exactReleasing_eq_some.2 ⟨rfl, hne, hgen⟩]
  simp [hattempt]

namespace Releases

variable {τ : Type*} {s t : State τ}

/-! ### Quiet steps -/

/-- A worker that waits would wait again, or is about to be notified. -/
def Settled (s : State τ) : Prop :=
  ∀ th job, s.workers th = .waiting job →
    s.custody.plan job.roster job.generation job.cleanupApplied = .waitForChange ∨ s.AboutToNotify

theorem Settled.of_notify (h : t.AboutToNotify) : Settled t := fun _ _ _ => .inr h

theorem Worker.wake_ne_waiting (w : Worker) (job : Job) : w.wake ≠ .waiting job := by
  cases w <;> exact nofun

theorem Settled.of_woken (h : t.workers = fun th => (s.workers th).wake) : Settled t := by
  intro th job hwait
  rw [h] at hwait
  exact absurd hwait ((s.workers th).wake_ne_waiting job)

theorem Settled.of_quiet (hs : Settled s)
    (hworkers : ∀ th job, t.workers th = .waiting job → s.workers th = .waiting job)
    (hplan : ∀ job : Job, s.custody.plan job.roster job.generation job.cleanupApplied = .waitForChange →
      t.custody.plan job.roster job.generation job.cleanupApplied = .waitForChange)
    (hnotify : s.AboutToNotify → t.AboutToNotify) : Settled t :=
  fun th job hwait => (hs th job (hworkers th job hwait)).imp (hplan job) hnotify

theorem running_of_attempt (h : s.custody.releaseState.hasAttempt .running = false) (g : UInt64) :
    s.custody.releaseState.running g = false := by
  rw [ReleaseState.running, h, Bool.and_false, Bool.false_and]

/-- While no attempt runs, a worker that waits is about to be notified, whatever is changed. -/
theorem Settled.of_not_running (hs : Settled s)
    (hidle : s.custody.releaseState.hasAttempt .running = false)
    (hworkers : ∀ th job, t.workers th = .waiting job → s.workers th = .waiting job)
    (hnotifiers : t.notifiers = s.notifiers) : Settled t := by
  intro th job hwait
  rcases hs th job (hworkers th job hwait) with hplan | hnotify | ⟨g, -, hg⟩
  · have hrunning := (CustodyRecord.plan_eq_wait_iff.1 hplan).1
    exact absurd hrunning (Bool.eq_false_iff.1 (running_of_attempt hidle _))
  · exact .inr (.inl (hnotifiers ▸ hnotify))
  · exact absurd hg (Bool.eq_false_iff.1 (running_of_attempt hidle g))

variable [DecidableEq τ]

theorem waiting_of_goto {th th' : τ} {w : Worker} {job : Job} (hw : ∀ job, w ≠ .waiting job)
    (h : (s.goto th w).workers th' = .waiting job) : s.workers th' = .waiting job := by
  change update s.workers th w th' = _ at h
  obtain rfl | hth := eq_or_ne th' th
  · rw [update_self] at h
    exact absurd h (hw job)
  · rwa [update_of_ne hth] at h

theorem Settled.goto (hs : Settled s) {th : τ} {w : Worker} (hw : ∀ job, w ≠ .waiting job) :
    Settled (s.goto th w) :=
  hs.of_quiet (fun _ _ => waiting_of_goto hw) (fun _ => id) id

/-! ### Workers -/

theorem Settled.request (hs : Settled s) (th : τ) (mode : ReleaseMode) :
    Settled (s.request th mode) := by
  unfold State.request
  by_cases hzero : (s.custody.request mode).1 = 0
  · rw [if_pos hzero]
    exact .of_woken rfl
  · rw [if_neg hzero]
    exact hs.of_not_running (CustodyRecord.not_running_of_request hzero)
      (fun _ _ => waiting_of_goto nofun) rfl

theorem Settled.retry (s : State τ) (th : τ) (release : ReleaseState) :
    Settled (s.retry th release) := by
  unfold State.retry
  split_ifs
  all_goals exact .of_notify (.inl (Nat.succ_pos _))

theorem Settled.plan (hs : Settled s) (th : τ) (job : Job) : Settled (s.plan th job) := by
  unfold State.plan
  split
  next =>
    split
    next => exact .retry s th _
    next => exact .of_notify (.inl (Nat.succ_pos _))
  next =>
    split
    all_goals exact .of_notify (.inl (Nat.succ_pos _))
  next hplan =>
    -- the worker begins to wait in the section in which it has planned to
    intro th' job' hwait
    change update s.workers th (.waiting job) th' = _ at hwait
    obtain rfl | hth := eq_or_ne th' th
    · rw [update_self] at hwait
      cases hwait
      exact .inl hplan
    · rw [update_of_ne hth] at hwait
      exact hs th' job' hwait
  next => exact hs.goto nofun

/-! ### Sections of others -/

/-- A retirement is reset with the generation of the attempt that runs, if one does. -/
def Matched (s : State τ) : Action τ → Prop
  | .reset claim => s.custody.releaseState.hasAttempt .running = true →
      s.custody.releaseState.running claim.generation = true
  | _ => True

instance : DecidablePred (Matched s) := fun a => by
  cases a <;> unfold Matched <;> infer_instance

omit [DecidableEq τ] in
/-- A blocker of an attempt that does not run is dropped. -/
theorem AboutToNotify.of_recordBlocker {g : UInt64} (hnone : s.custody.recordBlocker g = none)
    (h : s.AboutToNotify) : State.AboutToNotify { s with blockers := s.blockers.erase g } := by
  refine h.imp_right ?_
  rintro ⟨g', hmem, hrunning⟩
  refine ⟨g', (Multiset.mem_erase_of_ne ?_).2 hmem, hrunning⟩
  rintro rfl
  exact ReleaseState.markFailing_of_running hrunning (map_eq_none_iff.1 hnone)

theorem Settled.step {a : Action τ} (hs : Settled s) (hmatched : Matched s a)
    (h : s.step a = some t) : Settled t := by
  cases a with
  | request th mode =>
    simp only [State.step, State.workerStep] at h
    split at h <;> cases h
    exact hs.request th mode
  | requestTermination th =>
    simp only [State.step, State.workerStep] at h
    split at h <;> cases h
    unfold State.requestTermination
    split_ifs
    all_goals exact .of_notify (.inl (Nat.succ_pos _))
  | start th th' =>
    simp only [State.step, State.workerStep] at h
    split at h <;> cases h
    exact (hs.goto (w := .idle) nofun).goto nofun
  | setUp th =>
    simp only [State.step, State.workerStep] at h
    split at h
    · obtain ⟨-, rfl⟩ := of_guard h
      exact hs.goto nofun
    · cases h
  | plan th =>
    simp only [State.step, State.workerStep] at h
    split at h <;> cases h
    exact hs.plan th _
  | fail th =>
    simp only [State.step, State.workerStep] at h
    split at h <;> cases h
    unfold State.fail
    split
    · exact .retry s th _
    · exact hs.goto nofun
  | startFails th | lookUp th | act th applied | throws th | spuriousWake th =>
    simp only [State.step, State.workerStep] at h
    split at h <;> cases h
    all_goals exact hs.goto nofun
  | notify =>
    obtain ⟨-, rfl⟩ := of_guard h
    exact .of_woken rfl
  | admitOccurrence k =>
    -- the thread notifies when it has mapped the process
    obtain ⟨c, hc, rfl⟩ := map_eq_some_iff.1 h
    have hopen := (ite_none_left_eq_some.1 hc).1
    refine hs.of_not_running ?_ (fun _ _ => id) rfl
    rw [not_not.1 hopen]
    rfl
  | map k | mapFails k | readiness reached =>
    obtain ⟨-, rfl⟩ := of_guard h
    exact .of_notify (.inl (Nat.succ_pos _))
  | acquireReservation k | commitCreated k pid startStamp alreadyReaped waitStatus | settle k
  | complete claim =>
    obtain ⟨-, h⟩ := ite_none_right_eq_some.1 h
    obtain ⟨c, -, rfl⟩ := map_eq_some_iff.1 h
    exact .of_notify (.inl (Nat.succ_pos _))
  | initializationComplete k | publicationRetired k | osExit k waitStatus =>
    cases h
    exact .of_woken rfl
  | capture k reader =>
    simp only [State.step, State.reportStep] at h
    split at h <;> cases h
    · exact .of_woken rfl
    · exact hs
  | begin k expectedGeneration =>
    obtain ⟨⟨γ, reader, c⟩, hbegin, rfl⟩ := map_eq_some_iff.1 h
    refine hs.of_quiet (fun _ _ => id) (fun _ => CustodyRecord.plan_wait_of_begin hbegin) ?_
    obtain ⟨-, -, -, -, rfl⟩ := CustodyRecord.beginRetirement_eq_some hbegin
    exact id
  | reset claim =>
    obtain ⟨-, h⟩ := ite_none_right_eq_some.1 h
    split at h <;> cases h
    · by_cases hrunning : s.custody.releaseState.hasAttempt .running = true
      · next c hc =>
          obtain ⟨o, o', -, -, rfl⟩ := CustodyRecord.tryUpdate_eq_some hc
          exact .of_notify (.inr ⟨_, Multiset.mem_cons_self _ _, hmatched hrunning⟩)
      · exact hs.of_not_running (Bool.eq_false_iff.2 hrunning) (fun _ _ => id) rfl
    · exact hs
  | recordBlocker g =>
    obtain ⟨-, rfl⟩ := of_guard h
    unfold State.recordBlocker
    split
    · exact .of_notify (.inl (Nat.succ_pos _))
    · next hnone =>
        exact hs.of_quiet (fun _ _ => id) (fun _ => id) (AboutToNotify.of_recordBlocker hnone)
  | blocked th =>
    simp only [State.step, State.workerStep] at h
    split at h <;> cases h
    unfold State.recordBlocker
    split
    · exact .of_notify (.inl (Nat.succ_pos _))
    · exact hs
  | retire =>
    obtain ⟨-, rfl⟩ := of_guard h
    unfold State.retire
    split_ifs
    all_goals exact hs
  | cacheRecipe k | checkRetire | otherAdmits p identity occurrence | otherCaches p identity =>
    obtain ⟨-, rfl⟩ := of_guard h
    exact hs

/-- In every run in which a retirement is reset with the generation of the attempt that runs, a
worker that waits would plan to wait again, or somebody is about to notify. -/
theorem release_worker_settled {identity : ℕ} {readiness : ReadinessPhase}
    (h : (machine τ identity readiness).ReachableUnder Matched s) {th : τ} {job : Job}
    (hwait : s.workers th = .waiting job) :
    s.custody.plan job.roster job.generation job.cleanupApplied = .waitForChange ∨
      s.AboutToNotify := by
  refine ReachableUnder.invariant (I := Settled) ?_
    (fun _ _ _ _ hs hmatched hstep => hs.step hmatched hstep) h th job hwait
  rintro _ rfl th job hinit
  cases hinit

/-- A worker waits for a child whose process is running. -/
def waitingRun (caller worker : τ) : List (Action τ) :=
  let k : OccurrenceKey := ⟨5, 0⟩
  [.admitOccurrence k, .map k, .commitCreated k 42 none false none, .settle k,
    .request caller .passive, .start caller worker, .setUp worker, .lookUp worker, .lookUp worker,
    .notify, .notify, .notify, .plan worker]

theorem release_worker_settled_waiting :
    ∃ s : State (Fin 2), (machine (Fin 2) 1 .notRequested).ReachableUnder Matched s ∧
      s.workers 1 = .waiting ⟨1, [⟨⟨5, 0⟩, true⟩], false⟩ ∧
      (s.custody.plan [⟨⟨5, 0⟩, true⟩] 1 false = .waitForChange ∨ s.AboutToNotify) := by
  obtain ⟨s, hs, hwait⟩ := exists_reachableUnder_of_exec (P := Matched)
    (M := machine (Fin 2) 1 .notRequested)
    (Q := fun s => s.workers 1 = .waiting ⟨1, [⟨⟨5, 0⟩, true⟩], false⟩) (waitingRun 0 1) rfl
    (by decide +kernel)
  exact ⟨s, hs, hwait, release_worker_settled hs hwait⟩

theorem reset_wakes_nobody :
    ∃ s : State (Fin 2), (machine (Fin 2) 1 .notRequested).Reachable s ∧
      s.workers 1 = .waiting ⟨1, [⟨⟨5, 0⟩, true⟩], false⟩ ∧
      s.custody.plan [⟨⟨5, 0⟩, true⟩] 1 false = .retireHistoricalCommunication [⟨⟨5, 0⟩, true⟩] ∧
      ¬s.AboutToNotify := by
  let k : OccurrenceKey := ⟨5, 0⟩
  let r : Reader := ⟨9, k, 1⟩
  exact exists_reachable_of_exec
    ([.admitOccurrence k, .map k, .commitCreated k 42 none false none, .settle k,
      .publicationRetired k, .capture k (some r), .begin k 0, .request 0 .passive, .start 0 1,
      .setUp 1, .lookUp 1, .lookUp 1, .notify, .notify, .notify, .plan 1, .reset ⟨k, 0, some r⟩,
      .recordBlocker 0]) rfl (by decide +kernel)

end Releases

end Sintra.Custody
