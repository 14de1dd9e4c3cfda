import Sintra.Lib.Updates
import Sintra.Messaging.DeliveryFence

/-!
# Steps of delivery fences

What a step can do to what fences look at. Most steps are quiet: they leave every call of a fence where it
is, and whatever they change so that a target is reached, they do it on the way to a notification
(`Quiet`). The others are a notification and the steps of a fence itself.
-/

set_option linter.unusedSectionVars false

namespace Sintra.Messaging.Fence

open Function Updates State Machine Option

variable {ρ κ : Type*}

namespace Stage

/-- The call holds `m_delivery_mutex`. -/
def holds : Stage ρ → Bool
  | .evaluate held _ => held
  | .wait _ | .unlock => true
  | _ => false

/-- The call is counted in `request_fence_parked`. -/
def counts : Stage ρ → Bool
  | .parkNotify | .lock | .wait _ | .waiting _ | .woken | .unlock | .unpark => true
  | .evaluate held _ => held
  | _ => false

/-- The target that the call waits for. -/
def blockedOn : Stage ρ → Option (Target ρ)
  | .wait q | .waiting q => some q
  | _ => none

end Stage

/-- The thread has changed what fences wait for. -/
def Pc.owes : Pc ρ → Bool
  | .notify _ | .exitStored | .stopReplies _ => true
  | _ => false

/-- The thread has changed what fences wait for, and will call `notify_delivery_progress`. -/
def State.Owes (s : State ρ κ) (th : Thread ρ κ) : Prop :=
  (s.pc th).owes = true ∨ ∃ f fs, s.frames th = f :: fs ∧ f.stage = .parkNotify

/-- Some thread is on its way to a notification. -/
def State.Pending (s : State ρ κ) : Prop := ∃ th, s.Owes th

/-- A step that is not of a fence. -/
structure Quiet (s t : State ρ κ) : Prop where
  frames : t.frames = s.frames
  mutex : t.mutex = s.mutex
  parked : ∀ r, (t.reader r).requestFenceParked = (s.reader r).requestFenceParked
  communication : s.communication = .running → t.communication = .running ∨ t.Pending
  sequence : ∀ r stream, (t.stream r stream).sequence ≤ (s.stream r stream).sequence ∨ t.Pending
  stopped : ∀ r stream, (s.stream r stream).stopped = false →
    (t.stream r stream).stopped = false ∨ t.Pending
  pending : s.Pending → t.Pending

variable [DecidableEq ρ] [DecidableEq κ]

/-- What a step is, as far as fences can tell. -/
inductive Move (act : Action ρ κ) (s t : State ρ κ) : Prop
  | quiet : Quiet s t → Move act s t
  | notify (th : Thread ρ κ) (next : Place) : s.pc th = .notify next → s.mutex = none →
      t = s.wakeAll.setPc th (.at next) → Move act s t
  | enter (th : Thread ρ κ) : act = .enter th → s.mayEnter th = true →
      t = s.setFrames th (s.entry :: s.frames th) → Move act s t
  | load (th : Thread ρ κ) (f f' : Frame ρ) (fs : List (Frame ρ)) : s.frames th = f :: fs →
      (s.captureStep th f = some f' ∨
        ∃ held e, f.stage = .evaluate held e ∧ f' = s.evaluateStep th f held e) →
      t = s.setFrames th (f' :: fs) → Move act s t
  | spurious (th : Thread ρ κ) (f : Frame ρ) (fs : List (Frame ρ)) (q : Target ρ) :
      s.frames th = f :: fs → f.stage = .waiting q →
      t = s.setFrames th ({ f with stage := .woken } :: fs) → Move act s t
  | pass (th : Thread ρ κ) (f : Frame ρ) (fs : List (Frame ρ)) : s.frames th = f :: fs →
      f.stage = .park → th.servesRequests = false →
      t = s.setFrames th ({ f with stage := .lock } :: fs) → Move act s t
  | park (r : ρ) (f : Frame ρ) (fs : List (Frame ρ)) : s.frames (.serve r .request) = f :: fs →
      f.stage = .park →
      t = (s.addParked (.serve r .request) (· + 1)).setFrames (.serve r .request)
        ({ f with stage := .parkNotify } :: fs) → Move act s t
  | parkNotify (th : Thread ρ κ) (f : Frame ρ) (fs : List (Frame ρ)) : s.frames th = f :: fs →
      f.stage = .parkNotify → s.mutex = none →
      t = s.wakeAll.setFrames th ({ f with stage := .lock } :: fs) → Move act s t
  | lock (th : Thread ρ κ) (f : Frame ρ) (fs : List (Frame ρ)) : s.frames th = f :: fs →
      (f.stage = .lock ∨ f.stage = .woken) → s.mutex = none →
      t = { s with mutex := some th }.setFrames th ({ f with stage := .evaluate true .state } :: fs) →
      Move act s t
  | wait (th : Thread ρ κ) (f : Frame ρ) (fs : List (Frame ρ)) (q : Target ρ) : s.frames th = f :: fs →
      f.stage = .wait q →
      t = { s with mutex := none }.setFrames th ({ f with stage := .waiting q } :: fs) → Move act s t
  | unlock (th : Thread ρ κ) (f : Frame ρ) (fs : List (Frame ρ)) : s.frames th = f :: fs →
      f.stage = .unlock →
      t = { s with mutex := none }.setFrames th ({ f with stage := .unpark } :: fs) → Move act s t
  | unpark (th : Thread ρ κ) (f : Frame ρ) (fs : List (Frame ρ)) : s.frames th = f :: fs →
      f.stage = .unpark →
      t = (s.addParked th (· - 1)).setFrames th ({ f with stage := .done } :: fs) → Move act s t
  | done (th : Thread ρ κ) (f : Frame ρ) (fs : List (Frame ρ)) : s.frames th = f :: fs →
      f.stage = .done → t = s.setFrames th fs → Move act s t

variable {act : Action ρ κ} {s t : State ρ κ} {th : Thread ρ κ} {r : ρ} {stream : Stream}

theorem fence_cases (h : s.fenceStep th = some t) : Move act s t := by
  unfold fenceStep at h
  split at h
  next => cases h
  next f fs hframes =>
    split at h
    next held e hstage =>
      exact .load th f _ fs hframes (.inr ⟨held, e, hstage, rfl⟩) (some.inj h).symm
    next hstage =>
      split_ifs at h with hserves
      · obtain ⟨r, rfl⟩ : ∃ r, th = .serve r .request := by
          cases th with
          | serve r stream =>
            cases stream with
            | request => exact ⟨r, rfl⟩
            | reply => cases hserves
          | control k => cases hserves
        exact .park r f fs hframes hstage (some.inj h).symm
      · exact .pass th f fs hframes hstage (Bool.eq_false_iff.2 hserves) (some.inj h).symm
    next hstage =>
      rw [ite_none_right_eq_some] at h
      exact .parkNotify th f fs hframes hstage h.1 (some.inj h.2).symm
    next hstage =>
      rw [ite_none_right_eq_some] at h
      exact .lock th f fs hframes (.inl hstage) h.1 (some.inj h.2).symm
    next q hstage => exact .wait th f fs q hframes hstage (some.inj h).symm
    next => cases h
    next hstage =>
      rw [ite_none_right_eq_some] at h
      exact .lock th f fs hframes (.inr hstage) h.1 (some.inj h.2).symm
    next hstage => exact .unlock th f fs hframes hstage (some.inj h).symm
    next hstage => exact .unpark th f fs hframes hstage (some.inj h).symm
    next hstage => exact .done th f fs hframes hstage (some.inj h).symm
    next =>
      obtain ⟨f', hf', rfl⟩ := map_eq_some_iff.1 h
      exact .load th f f' fs hframes (.inl hf') rfl

/-! ### Quiet steps -/

/-- A step that leaves the progress alone. -/
theorem Quiet.of_same (hframes : t.frames = s.frames) (hmutex : t.mutex = s.mutex)
    (hparked : ∀ r, (t.reader r).requestFenceParked = (s.reader r).requestFenceParked)
    (hcommunication : s.communication = .running → t.communication = .running)
    (hsequence : ∀ r stream, (t.stream r stream).sequence = (s.stream r stream).sequence)
    (hstopped : ∀ r stream, (s.stream r stream).stopped = false → (t.stream r stream).stopped = false)
    (hpending : s.Pending → t.Pending) : Quiet s t :=
  ⟨hframes, hmutex, hparked, fun h => .inl (hcommunication h),
    fun r stream => .inl (Nat.le_of_eq (hsequence r stream)),
    fun r stream h => .inl (hstopped r stream h), hpending⟩

/-- A step on the way to a notification. -/
theorem Quiet.of_owes (th : Thread ρ κ) (hframes : t.frames = s.frames) (hmutex : t.mutex = s.mutex)
    (hparked : ∀ r, (t.reader r).requestFenceParked = (s.reader r).requestFenceParked)
    (howes : (t.pc th).owes = true) : Quiet s t :=
  have hpending : t.Pending := ⟨th, .inl howes⟩
  ⟨hframes, hmutex, hparked, fun _ => .inr hpending, fun _ _ => .inr hpending, fun _ _ _ => .inr hpending,
    fun _ => hpending⟩

theorem State.Pending.of_same (h : s.Pending) (hpc : t.pc = s.pc) (hframes : t.frames = s.frames) :
    t.Pending := by
  obtain ⟨th, hth⟩ := h
  refine ⟨th, ?_⟩
  unfold Owes
  rw [hpc, hframes]
  exact hth

/-- A thread that owes no notification goes on. -/
theorem State.Pending.of_update (h : s.Pending) {pc : Pc ρ} (hpc : t.pc = update s.pc th pc)
    (hframes : t.frames = s.frames) (howes : (s.pc th).owes = false) : t.Pending := by
  obtain ⟨th', hth'⟩ := h
  refine ⟨th', ?_⟩
  unfold Owes
  rw [hpc, hframes]
  refine hth'.imp_left fun howes' => ?_
  have hne : th' ≠ th := by
    rintro rfl
    cases howes.symm.trans howes'
  rwa [update_of_ne hne]

/-- A stream is updated without a change of its progress. -/
theorem sequence_setStream {x : StreamState} (hx : x.sequence = (s.stream r stream).sequence)
    (r' : ρ) (stream' : Stream) :
    ((s.setStream r stream x).stream r' stream').sequence = (s.stream r' stream').sequence :=
  proj_update (fun x : Stream → StreamState => (x stream').sequence)
    (proj_update StreamState.sequence hx stream') r'

theorem stopped_setStream {x : StreamState}
    (hx : (s.stream r stream).stopped = false → x.stopped = false) (r' : ρ) (stream' : Stream)
    (h : (s.stream r' stream').stopped = false) :
    ((s.setStream r stream x).stream r' stream').stopped = false := by
  show (update s.stream r _ r' stream').stopped = _
  obtain rfl | hr := eq_or_ne r' r
  · rw [update_self]
    obtain rfl | hstream := eq_or_ne stream' stream
    · rw [update_self]
      exact hx h
    · rwa [update_of_ne hstream]
  · rwa [update_of_ne hr]

theorem parked_setReader {x : Reader} (hx : x.requestFenceParked = (s.reader r).requestFenceParked)
    (r' : ρ) :
    ((s.setReader r x).reader r').requestFenceParked = (s.reader r').requestFenceParked :=
  proj_update Reader.requestFenceParked hx r'

theorem State.addParked_eq (s : State ρ κ) (th : Thread ρ κ) (change : ℕ → ℕ) :
    s.addParked th change = { s with reader := (s.addParked th change).reader } := by
  unfold addParked
  split <;> rfl

/-- A publication that changes the progress is followed by a notification. -/
theorem quiet_publish (howes : (s.pc (.serve r stream)).owes = false) :
    Quiet s (s.publish r stream) := by
  by_cases hsame : (s.stream r stream).sequence = (s.stream r stream).reading
  · refine .of_same rfl rfl (fun _ => rfl) id (sequence_setStream hsame.symm) (stopped_setStream id)
      fun h => h.of_update rfl rfl howes
  · refine .of_owes (.serve r stream) rfl rfl (fun _ => rfl) ?_
    show (update s.pc _ _ _ : Pc ρ).owes = true
    rw [update_self, if_neg hsame]
    rfl

theorem quiet_serve (h : s.serveStep r stream = some t) : Quiet s t := by
  simp only [serveStep] at h
  split at h
  case h_2 hpc | h_3 hpc =>
    cases h
    exact quiet_publish (by rw [hpc]; rfl)
  case h_4 hpc | h_5 hpc =>
    cases h
    refine .of_owes (.serve r stream) rfl rfl (fun _ => rfl) ?_
    show (update s.pc _ _ _ : Pc ρ).owes = true
    rw [update_self]
    rfl
  next hpc =>
    obtain ⟨h, rfl⟩ := of_guard h
    exact .of_same rfl rfl (fun _ => rfl) id (sequence_setStream rfl) (stopped_setStream fun _ => rfl)
      fun h => h.of_update rfl rfl (by rw [hpc]; rfl)
  next => cases h

theorem proceed_cases (h : s.proceed th = some t) : Move act s t := by
  unfold proceed at h
  split at h
  case h_1 r hpc | h_2 r hpc =>
    cases h
    refine .quiet (.of_owes th rfl rfl (fun _ => rfl) ?_)
    show (update s.pc _ _ _ : Pc ρ).owes = true
    rw [update_self]
    rfl
  next next hpc =>
    rw [ite_none_right_eq_some] at h
    exact .notify th next hpc h.1 (some.inj h.2).symm
  next => cases h

theorem not_owes_of_inUserCode (h : s.inUserCode th = true) : (s.pc th).owes = false := by
  rw [inUserCode, Bool.and_eq_true, decide_eq_true_eq] at h
  rw [h.1]
  rfl

/-- Every step is one of `Move`. -/
theorem step_cases (h : s.step act = some t) : Move act s t := by
  cases act with
  | run =>
    obtain ⟨hg, rfl⟩ := of_guard h
    exact .quiet (.of_same rfl rfl (fun _ => rfl) (fun _ => rfl) (fun _ _ => rfl) (fun _ _ => id)
      fun h => h.of_same rfl rfl)
  | write r stream | evict r stream =>
    obtain ⟨hg, rfl⟩ := of_guard h
    exact .quiet (.of_same rfl rfl (fun _ => rfl) id (sequence_setStream rfl) (stopped_setStream id)
      fun h => h.of_same rfl rfl)
  | add r =>
    obtain ⟨hg, rfl⟩ := of_guard h
    exact .quiet (.of_same rfl rfl (parked_setReader rfl) id
      (fun r' stream => proj_update (f := s.stream) (fun x => (x stream).sequence) (by rfl) r')
      (fun r' stream => (proj_update (f := s.stream) (fun x => (x stream).stopped) (by rfl) r').trans)
      fun h => h.of_same rfl rfl)
  | remove r | destroy r | pauseReader r =>
    obtain ⟨hg, rfl⟩ := of_guard h
    exact .quiet (.of_same rfl rfl (parked_setReader rfl) id (fun _ _ => rfl) (fun _ _ => id)
      fun h => h.of_same rfl rfl)
  | serve r stream => exact .quiet (quiet_serve h)
  | fetch r stream =>
    obtain ⟨⟨hpc, -⟩, rfl⟩ := of_guard h
    exact .quiet (.of_same rfl rfl (fun _ => rfl) id (sequence_setStream rfl) (stopped_setStream id)
      fun h => h.of_update rfl rfl (by rw [hpc]; rfl))
  | quit r stream =>
    obtain ⟨⟨hpc, -⟩, rfl⟩ := of_guard h
    exact .quiet (.of_same rfl rfl (fun _ => rfl) id (fun _ _ => rfl) (fun _ _ => id)
      fun h => h.of_update rfl rfl (by rw [hpc]; rfl))
  | finish r stream =>
    obtain ⟨hg, rfl⟩ := of_guard h
    exact .quiet (.of_same rfl rfl (fun _ => rfl) id (sequence_setStream rfl) (stopped_setStream id)
      fun hp => hp.of_update rfl rfl (not_owes_of_inUserCode hg))
  | stopNowait th r =>
    obtain ⟨hg, rfl⟩ := of_guard h
    exact .quiet (.of_same rfl rfl (parked_setReader rfl) id (fun _ _ => rfl) (fun _ _ => id)
      fun hp => hp.of_update rfl rfl (not_owes_of_inUserCode hg.1))
  | setState th c =>
    obtain ⟨-, rfl⟩ := of_guard h
    refine .quiet (.of_owes th rfl rfl (fun _ => rfl) ?_)
    show (update s.pc _ _ _ : Pc ρ).owes = true
    rw [update_self]
    rfl
  | proceed th => exact proceed_cases h
  | enter th =>
    rw [State.step, Option.ite_none_right_eq_some] at h
    exact .enter th rfl h.1 (some.inj h.2).symm
  | fence th => exact fence_cases h
  | spurious th =>
    simp only [State.step] at h
    split at h
    next => cases h
    next f fs hframes =>
      split_ifs at h with hwake
      obtain ⟨q, hq⟩ : ∃ q, f.stage = .waiting q := by
        cases hstage : f.stage with
        | waiting q => exact ⟨q, rfl⟩
        | _ => exact absurd (by simp only [Frame.wake, hstage]) hwake
      have hwoken : f.wake = { f with stage := .woken } := by
        simp only [Frame.wake, hq]
      rw [hwoken] at h
      exact .spurious th f fs q hframes hq (some.inj h).symm

/-! ### Calls -/

/-- How a call goes on when it does not load. -/
inductive Passage : Stage ρ → Stage ρ → Prop
  | pass : Passage .park .lock
  | park : Passage .park .parkNotify
  | parkNotify : Passage .parkNotify .lock
  | lock : Passage .lock (.evaluate true .state)
  | relock : Passage .woken (.evaluate true .state)
  | wait (q : Target ρ) : Passage (.wait q) (.waiting q)
  | wake (q : Target ρ) : Passage (.waiting q) .woken
  | unlock : Passage .unlock .unpark
  | unpark : Passage .unpark .done

/-- Where a call comes from that a thread is in after a step. -/
inductive Origin (act : Action ρ κ) (s : State ρ κ) (th : Thread ρ κ) (f' : Frame ρ) : Prop
  | same : f' ∈ s.frames th → Origin act s th f'
  | fresh : act = .enter th → f' = s.entry → Origin act s th f'
  | capture (f : Frame ρ) : f ∈ s.frames th → s.captureStep th f = some f' → Origin act s th f'
  | evaluate (f : Frame ρ) (held : Bool) (e : Eval ρ) : f ∈ s.frames th → f.stage = .evaluate held e →
      f' = s.evaluateStep th f held e → Origin act s th f'
  | passage (f : Frame ρ) (stage : Stage ρ) : f ∈ s.frames th → Passage f.stage stage →
      f' = { f with stage := stage } → Origin act s th f'

variable {f' : Frame ρ}

/-- The innermost call of a thread goes on. -/
theorem Origin.of_update {th' : Thread ρ κ} {f g : Frame ρ} {fs : List (Frame ρ)}
    (hth : s.frames th = f :: fs) (hframes : t.frames = update s.frames th (g :: fs))
    (hf' : f' ∈ t.frames th') (hg : f ∈ s.frames th → Origin act s th g) : Origin act s th' f' := by
  rw [hframes] at hf'
  obtain rfl | hne := eq_or_ne th' th
  · rw [update_self] at hf'
    rcases List.mem_cons.1 hf' with rfl | hmem
    · exact hg (hth ▸ List.mem_cons_self)
    · exact .same (hth ▸ List.mem_cons_of_mem _ hmem)
  · rw [update_of_ne hne] at hf'
    exact .same hf'

theorem Origin.of_wakeAll (hf' : f' ∈ s.wakeAll.frames th) :
    f' ∈ s.frames th ∨ ∃ f ∈ s.frames th, ∃ q, f.stage = .waiting q ∧ f' = { f with stage := .woken } := by
  unfold wakeAll at hf'
  dsimp only at hf'
  split at hf'
  next => cases hf'
  next f fs hframes =>
    rw [hframes]
    rcases List.mem_cons.1 hf' with rfl | hmem
    · unfold Frame.wake
      split
      next q hstage => exact .inr ⟨f, List.mem_cons_self, q, hstage, rfl⟩
      next => exact .inl List.mem_cons_self
    · exact .inl (List.mem_cons_of_mem _ hmem)

/-- What a step does to a single call. -/
theorem Move.origin (h : Move act s t) (hf' : f' ∈ t.frames th) :
    Origin act s th f' := by
  have hwake : ∀ {f'}, f' ∈ s.wakeAll.frames th → Origin act s th f' := by
    intro f' hf'
    rcases Origin.of_wakeAll hf' with hsame | ⟨f, hf, q, hstage, rfl⟩
    · exact .same hsame
    · exact .passage f _ hf (hstage ▸ .wake q) rfl
  cases h with
  | quiet hq => exact .same (hq.frames ▸ hf')
  | notify th' next _ _ ht => exact hwake (by rw [ht] at hf'; exact hf')
  | enter th' hact _ ht =>
    subst ht
    change f' ∈ update s.frames th' _ th at hf'
    obtain rfl | hne := eq_or_ne th th'
    · rw [update_self] at hf'
      exact (List.mem_cons.1 hf').elim (.fresh hact) .same
    · rw [update_of_ne hne] at hf'
      exact .same hf'
  | load th' f g fs hth hload ht =>
    subst ht
    refine .of_update hth rfl hf' fun hf => ?_
    rcases hload with hcapture | ⟨held, e, hstage, hg⟩
    · exact .capture f hf hcapture
    · exact .evaluate f held e hf hstage hg
  | spurious th' f fs q hth hstage ht =>
    subst ht
    exact .of_update hth rfl hf' fun hf => .passage f _ hf (hstage ▸ .wake q) rfl
  | pass th' f fs hth hstage _ ht =>
    subst ht
    exact .of_update hth rfl hf' fun hf => .passage f _ hf (hstage ▸ .pass) rfl
  | park r f fs hth hstage ht =>
    subst ht
    exact .of_update hth rfl hf' fun hf => .passage f _ hf (hstage ▸ .park) rfl
  | parkNotify th' f fs hth hstage _ ht =>
    subst ht
    change f' ∈ update s.wakeAll.frames th' _ th at hf'
    obtain rfl | hne := eq_or_ne th th'
    · rw [update_self] at hf'
      rcases List.mem_cons.1 hf' with rfl | hmem
      · exact .passage f _ (hth ▸ List.mem_cons_self) (hstage ▸ .parkNotify) rfl
      · exact .same (hth ▸ List.mem_cons_of_mem _ hmem)
    · rw [update_of_ne hne] at hf'
      exact hwake hf'
  | lock th' f fs hth hstage _ ht =>
    subst ht
    refine .of_update hth rfl hf' fun hf => .passage f _ hf ?_ rfl
    rcases hstage with hstage | hstage
    · exact hstage ▸ .lock
    · exact hstage ▸ .relock
  | wait th' f fs q hth hstage ht =>
    subst ht
    exact .of_update hth rfl hf' fun hf => .passage f _ hf (hstage ▸ .wait q) rfl
  | unlock th' f fs hth hstage ht =>
    subst ht
    exact .of_update hth rfl hf' fun hf => .passage f _ hf (hstage ▸ .unlock) rfl
  | unpark th' f fs hth hstage ht =>
    subst ht
    rw [s.addParked_eq] at hf'
    exact .of_update hth rfl hf' fun hf => .passage f _ hf (hstage ▸ .unpark) rfl
  | done th' f fs hth _ ht =>
    subst ht
    change f' ∈ update s.frames th' _ th at hf'
    obtain rfl | hne := eq_or_ne th th'
    · rw [update_self] at hf'
      exact .same (hth ▸ List.mem_cons_of_mem _ hf')
    · rw [update_of_ne hne] at hf'
      exact .same hf'

end Sintra.Messaging.Fence
