import Sintra.Messaging.DeliveryFenceStreams

/-!
# Fences wake each other

A call of a fence that has found a target unreached under `m_delivery_mutex` goes to wait without giving
the mutex away in between. Whoever changes what it has loaded comes to a notification later, for which it
needs the mutex: so as long as the call has not been woken, what it has loaded is still so, or a
notification is on its way (`Stage.Seen`). A request reader that waits is counted in the
progress of its stream, and has notified the others since.
-/

set_option linter.unusedSectionVars false

namespace Sintra.Messaging.Fence

open Function State

variable {ρ κ : Type*} [DecidableEq ρ] [DecidableEq κ] {s t : State ρ κ}

/-! ### What a call has loaded -/

/-- The progress of the stream is below the target. -/
def State.Unreached (s : State ρ κ) (q : Target ρ) : Prop :=
  (s.stream q.reader q.stream).sequence < q.target

/-- What an evaluation has found so far is still so. -/
def Eval.Seen (s : State ρ κ) : Eval ρ → Prop
  | .state => True
  | .next _ | .observe _ _ => s.communication = .running
  | .stopped q _ => s.communication = .running ∧ s.Unreached q
  | .parked q _ =>
    s.communication = .running ∧ s.Unreached q ∧ (s.stream q.reader q.stream).stopped = false

/-- What a call has found under the mutex is still so. -/
def Stage.Seen (s : State ρ κ) (th : Thread ρ κ) : Stage ρ → Prop
  | .evaluate true e => e.Seen s
  | .wait q | .waiting q =>
    s.communication = .running ∧ s.Unreached q ∧ (s.stream q.reader q.stream).stopped = false ∧
      s.parkedFor th q = false
  | _ => True

variable {th : Thread ρ κ} {fs : List (Frame ρ)} {f : Frame ρ}

variable {q : Target ρ}

theorem parkedFor_mono
    (hparked : (t.reader q.reader).requestFenceParked ≤ (s.reader q.reader).requestFenceParked)
    (h : s.parkedFor th q = false) : t.parkedFor th q = false := by
  by_contra hne
  have htrue : t.parkedFor th q = true := by simpa using hne
  refine Bool.false_ne_true (h.symm.trans ?_)
  unfold parkedFor at htrue ⊢
  simp only [Bool.and_eq_true, bne_iff_ne] at htrue ⊢
  exact ⟨htrue.1, fun hzero => htrue.2 (Nat.le_zero.1 (hzero ▸ hparked))⟩

theorem Stage.Seen.mono {stage : Stage ρ} (h : stage.Seen s th)
    (hcommunication : s.communication = .running → t.communication = .running)
    (hsequence : ∀ r stream, (t.stream r stream).sequence ≤ (s.stream r stream).sequence)
    (hstopped : ∀ r stream, (s.stream r stream).stopped = false → (t.stream r stream).stopped = false)
    (hparked : ∀ r, (t.reader r).requestFenceParked ≤ (s.reader r).requestFenceParked) :
    stage.Seen t th := by
  have hunreached : ∀ {q}, s.Unreached q → t.Unreached q :=
    fun hq => Nat.lt_of_le_of_lt (hsequence _ _) hq
  cases stage with
  | evaluate held e =>
    cases held with
    | false => trivial
    | true =>
      cases e with
      | state => trivial
      | next | observe => exact hcommunication h
      | stopped => exact ⟨hcommunication h.1, hunreached h.2⟩
      | parked => exact ⟨hcommunication h.1, hunreached h.2.1, hstopped _ _ h.2.2⟩
  | wait | waiting =>
    exact ⟨hcommunication h.1, hunreached h.2.1, hstopped _ _ h.2.2.1, parkedFor_mono (hparked _) h.2.2.2⟩
  | _ => trivial

theorem Stage.Seen.evaluate {held : Bool} {e e' : Eval ρ} (h : e.Seen s → e'.Seen s) :
    (Stage.evaluate held e).Seen s th → (Stage.evaluate held e').Seen s th := by
  cases held with
  | false => exact id
  | true => exact h

theorem Quiet.seen (hq : Quiet s t) {stage : Stage ρ} (h : stage.Seen s th ∨ s.Pending) :
    stage.Seen t th ∨ t.Pending := by
  by_cases hpending : t.Pending
  · exact .inr hpending
  · have hseen : stage.Seen s th := h.resolve_right fun hp => hpending (hq.pending hp)
    exact .inl (hseen.mono (fun hc => (hq.communication hc).resolve_right hpending)
      (fun r stream => (hq.sequence r stream).resolve_right hpending)
      (fun r stream hx => (hq.stopped r stream hx).resolve_right hpending)
      fun r => Nat.le_of_eq (hq.parked r))

/-! ### The invariant -/

/-- The calls that are counted. -/
def countsParked (fs : List (Frame ρ)) : ℕ := fs.countP fun f => f.stage.counts

structure Inv (s : State ρ κ) : Prop where
  /-- A call inside a call is made where the outer one takes the mutex. -/
  stack : ∀ th f fs, s.frames th = f :: fs → ∀ g ∈ fs, g.stage = .lock
  mutex : ∀ th, s.mutex = some th ↔ ∃ f fs, s.frames th = f :: fs ∧ f.stage.holds = true
  parked : ∀ r, (s.reader r).requestFenceParked = countsParked (s.frames (.serve r .request))
  seen : ∀ th f fs, s.frames th = f :: fs → f.stage.Seen s th ∨ s.Pending
  /-- A stream that has been found unparked has not got to its own notification since. -/
  early : ∀ th f fs q, s.frames th = f :: fs → f.stage.blockedOn = some q →
    th.servesRequests = true → q.stream = .request →
      (s.reader q.reader).requestFenceParked = 0 ∨
        ∃ g gs, s.frames (.serve q.reader .request) = g :: gs ∧ g.stage = .parkNotify

theorem inv_init (h : (machine ρ κ).init s) : Inv s := by
  obtain ⟨-, -, hmutex, hreader, -, -, -, hframes⟩ := h
  refine ⟨fun th f fs hth => ?_, fun th => ?_, fun r => ?_, fun th f fs hth => ?_, fun th f fs q hth => ?_⟩
  · cases (hframes th).symm.trans hth
  · rw [hmutex]
    refine iff_of_false nofun ?_
    rintro ⟨f, fs, hth, -⟩
    cases (hframes th).symm.trans hth
  · rw [hreader, hframes]
    rfl
  · cases (hframes th).symm.trans hth
  · cases (hframes th).symm.trans hth

theorem Inv.quiet (hs : Inv s) (hq : Quiet s t) : Inv t := by
  refine ⟨?_, fun th => ?_, fun r => ?_, fun th f fs hth => ?_, fun th f fs q hth hblocked hserves hstream => ?_⟩
  · rw [hq.frames]
    exact hs.stack
  · rw [hq.mutex, hq.frames]
    exact hs.mutex th
  · rw [hq.parked, hq.frames]
    exact hs.parked r
  · rw [hq.frames] at hth
    exact hq.seen (hs.seen th f fs hth)
  · rw [hq.frames] at hth ⊢
    rw [hq.parked]
    exact hs.early th f fs q hth hblocked hserves hstream

/-! ### Notifications -/

theorem wakeAll_frames {f' : Frame ρ} (h : s.wakeAll.frames th = f' :: fs) :
    ∃ f, s.frames th = f :: fs ∧ f' = f.wake := by
  unfold wakeAll at h
  dsimp only at h
  split at h
  next => cases h
  next f gs hframes =>
    obtain ⟨rfl, rfl⟩ := List.cons.inj h
    exact ⟨f, hframes, rfl⟩

theorem frames_wakeAll (h : s.frames th = f :: fs) : s.wakeAll.frames th = f.wake :: fs := by
  unfold wakeAll
  dsimp only
  rw [h]

theorem wake_stage (f : Frame ρ) : f.wake.stage = f.stage ∧ (∀ q, f.stage ≠ .waiting q) ∨
    f.wake.stage = .woken ∧ ∃ q, f.stage = .waiting q := by
  unfold Frame.wake
  cases hstage : f.stage with
  | waiting q => exact .inr ⟨rfl, q, rfl⟩
  | _ => exact .inl ⟨hstage, nofun⟩

theorem holds_wake (f : Frame ρ) : f.wake.stage.holds = f.stage.holds := by
  rcases wake_stage f with ⟨hsame, -⟩ | ⟨hwoken, q, hq⟩
  · rw [hsame]
  · rw [hwoken, hq]
    rfl

theorem counts_wake (f : Frame ρ) : f.wake.stage.counts = f.stage.counts := by
  rcases wake_stage f with ⟨hsame, -⟩ | ⟨hwoken, q, hq⟩
  · rw [hsame]
  · rw [hwoken, hq]
    rfl

theorem countsParked_wakeAll (th : Thread ρ κ) :
    countsParked (s.wakeAll.frames th) = countsParked (s.frames th) := by
  unfold countsParked wakeAll
  dsimp only
  split
  next hframes => rw [hframes]
  next f fs hframes => rw [hframes, List.countP_cons, List.countP_cons, counts_wake]

/-- When the mutex is free, no call has anything to rely on after a notification. -/
theorem Inv.wake_settles (hs : Inv s) (hfree : s.mutex = none) (hth : s.frames th = f :: fs) :
    f.wake.stage.blockedOn = none ∧ ∀ (u : State ρ κ), f.wake.stage.Seen u th := by
  have hholds : f.stage.holds = false := by
    by_contra hne
    have hmutex := (hs.mutex th).2 ⟨f, fs, hth, by simpa using hne⟩
    cases hfree.symm.trans hmutex
  rcases wake_stage f with ⟨hsame, hwaiting⟩ | ⟨hwoken, -⟩
  · rw [hsame]
    cases hstage : f.stage with
    | evaluate held e =>
      rw [hstage] at hholds
      obtain rfl : held = false := hholds
      exact ⟨rfl, fun _ => trivial⟩
    | wait q =>
      rw [hstage] at hholds
      cases hholds
    | waiting q => exact absurd hstage (hwaiting q)
    | _ => exact ⟨rfl, fun _ => trivial⟩
  · rw [hwoken]
    exact ⟨rfl, fun _ => trivial⟩

/-- A notification: afterwards no call relies on anything. -/
theorem Inv.settled (hs : Inv s) (hfree : s.mutex = none) (hmutex : t.mutex = none)
    (hreader : t.reader = s.reader)
    (hcounts : ∀ th, countsParked (t.frames th) = countsParked (s.frames th))
    (hframes : ∀ th f' fs, t.frames th = f' :: fs → ∃ f, s.frames th = f :: fs ∧
      f'.stage.holds = f.stage.holds ∧ f'.stage.blockedOn = none ∧ f'.stage.Seen t th) : Inv t := by
  refine ⟨fun th f' fs hth => ?_, fun th => ?_, fun r => ?_, fun th f' fs hth => ?_,
    fun th f' fs q hth hblocked => ?_⟩
  · obtain ⟨f, hf, -⟩ := hframes th f' fs hth
    exact hs.stack th f fs hf
  · rw [hmutex]
    refine iff_of_false nofun ?_
    rintro ⟨f', fs, hth, hholds⟩
    obtain ⟨f, hf, hsame, -⟩ := hframes th f' fs hth
    rw [hsame] at hholds
    cases hfree.symm.trans ((hs.mutex th).2 ⟨f, fs, hf, hholds⟩)
  · rw [hreader, hcounts]
    exact hs.parked r
  · obtain ⟨f, -, -, -, hseen⟩ := hframes th f' fs hth
    exact .inl hseen
  · obtain ⟨f, -, -, hnone, -⟩ := hframes th f' fs hth
    cases hnone.symm.trans hblocked

theorem Inv.notify (hs : Inv s) {pc : Pc ρ} (hfree : s.mutex = none) :
    Inv (s.wakeAll.setPc th pc) := by
  refine hs.settled hfree hfree rfl countsParked_wakeAll fun th' f' fs hth' => ?_
  obtain ⟨f, hf, rfl⟩ := wakeAll_frames hth'
  obtain ⟨hnone, hseen⟩ := hs.wake_settles hfree hf
  exact ⟨f, hf, holds_wake f, hnone, hseen _⟩

theorem Inv.parkNotify (hs : Inv s) (hth : s.frames th = f :: fs) (hstage : f.stage = .parkNotify)
    (hfree : s.mutex = none) : Inv (s.wakeAll.setFrames th ({ f with stage := .lock } :: fs)) := by
  refine hs.settled hfree hfree rfl (fun th' => ?_) fun th' g gs hg => ?_
  · show countsParked (update s.wakeAll.frames th _ th') = _
    obtain rfl | hne := eq_or_ne th' th
    · rw [update_self, hth]
      unfold countsParked
      rw [List.countP_cons, List.countP_cons, hstage]
      rfl
    · rw [update_of_ne hne]
      exact countsParked_wakeAll th'
  · change update s.wakeAll.frames th _ th' = _ at hg
    obtain rfl | hne := eq_or_ne th' th
    · rw [update_self] at hg
      obtain ⟨rfl, rfl⟩ := List.cons.inj hg
      exact ⟨f, hth, by rw [hstage]; rfl, rfl, trivial⟩
    · rw [update_of_ne hne] at hg
      obtain ⟨f₀, hf₀, rfl⟩ := wakeAll_frames hg
      obtain ⟨hnone, hseen⟩ := hs.wake_settles hfree hf₀
      exact ⟨f₀, hf₀, holds_wake f₀, hnone, hseen _⟩

/-! ### Steps of a call -/

/-- The calls of a thread change, and nothing else but the mutex and a counter. -/
structure Changes (s t : State ρ κ) (th : Thread ρ κ) (l l' : List (Frame ρ)) : Prop where
  before : s.frames th = l
  frames : t.frames = update s.frames th l'
  communication : t.communication = s.communication
  stream : t.stream = s.stream
  pc : t.pc = s.pc

section

variable {th' : Thread ρ κ} {f' : Frame ρ} {l l' : List (Frame ρ)}

theorem Changes.self (h : Changes s t th l l') : t.frames th = l' := by
  rw [h.frames, update_self]

theorem Changes.other (h : Changes s t th l l') (hne : th' ≠ th) : t.frames th' = s.frames th' := by
  rw [h.frames, update_of_ne hne]

/-- A thread that is not at a notification owes none by its calls. -/
theorem Changes.pending (h : Changes s t th l l')
    (hnotify : ∀ f fs, l = f :: fs → f.stage ≠ .parkNotify) (hp : s.Pending) : t.Pending := by
  obtain ⟨th', hth'⟩ := hp
  refine ⟨th', ?_⟩
  unfold Owes
  rw [h.pc]
  refine hth'.imp_right ?_
  rintro ⟨g, gs, hg, hstage⟩
  have hne : th' ≠ th := by
    rintro rfl
    exact hnotify g gs (h.before.symm.trans hg) hstage
  exact ⟨g, gs, (h.other hne).trans hg, hstage⟩

/-- What the calls have seen is kept, if no counter has grown. -/
theorem Stage.Seen.inside {stage : Stage ρ} (hstage : stage.Seen s th)
    (hcommunication : t.communication = s.communication) (hstream : t.stream = s.stream)
    (hparked : ∀ r, (t.reader r).requestFenceParked ≤ (s.reader r).requestFenceParked) :
    stage.Seen t th :=
  hstage.mono (fun hc => hcommunication ▸ hc) (fun r stream => Nat.le_of_eq (by rw [hstream]))
    (fun r stream hx => by rw [hstream]; exact hx) hparked

/-- The calls of a thread change. The mutex changes hands as the new stage says, the counter of the thread
is that of its calls, and what the new call has seen holds. -/
theorem Inv.changes (hs : Inv s) (h : Changes s t th l l')
    (hstack : ∀ f fs, l' = f :: fs → ∀ g ∈ fs, g.stage = .lock)
    (hmutex : ∀ th', t.mutex = some th' ↔
      if th' = th then ∃ f fs, l' = f :: fs ∧ f.stage.holds = true else s.mutex = some th')
    (hparked : ∀ r, (t.reader r).requestFenceParked = countsParked (t.frames (.serve r .request)))
    (hle : ∀ r, (t.reader r).requestFenceParked ≤ (s.reader r).requestFenceParked)
    (hnotify : ∀ f fs, l = f :: fs → f.stage ≠ .parkNotify)
    (hseen : ∀ f fs, l' = f :: fs → f.stage.Seen t th ∨ t.Pending)
    (hearly : ∀ f fs q, l' = f :: fs → f.stage.blockedOn = some q →
      (∃ g gs, l = g :: gs ∧ g.stage.blockedOn = some q) ∨ s.parkedFor th q = false) : Inv t := by
  refine ⟨fun th' g gs hg => ?_, fun th' => ?_, hparked, fun th' g gs hg => ?_,
    fun th' g gs q hg hblocked hserves hstream => ?_⟩
  · obtain rfl | hne := eq_or_ne th' th
    · exact hstack g gs (h.self.symm.trans hg)
    · rw [h.other hne] at hg
      exact hs.stack th' g gs hg
  · rw [hmutex]
    split_ifs with hne
    · subst hne
      rw [h.self]
    · rw [h.other hne]
      exact hs.mutex th'
  · obtain rfl | hne := eq_or_ne th' th
    · exact hseen g gs (h.self.symm.trans hg)
    · rw [h.other hne] at hg
      exact (hs.seen th' g gs hg).imp (fun hold => hold.inside h.communication h.stream hle)
        (h.pending hnotify)
  · -- Was the counter of the target zero, or was its thread at its notification, so it is now.
    have hkept : (s.reader q.reader).requestFenceParked = 0 ∨
        (∃ g gs, s.frames (.serve q.reader .request) = g :: gs ∧ g.stage = .parkNotify) →
        (t.reader q.reader).requestFenceParked = 0 ∨
          ∃ g gs, t.frames (.serve q.reader .request) = g :: gs ∧ g.stage = .parkNotify := by
      rintro (hzero | ⟨g', gs', hg', hstage⟩)
      · exact .inl (Nat.le_zero.1 (hzero ▸ hle q.reader))
      · refine .inr ⟨g', gs', ?_, hstage⟩
        rw [h.other, hg']
        rintro rfl
        exact hnotify g' gs' (h.before.symm.trans hg') hstage
    refine hkept ?_
    obtain rfl | hne := eq_or_ne th' th
    · rcases hearly g gs q (h.self.symm.trans hg) hblocked with ⟨g₀, gs₀, hl, hold⟩ | hnot
      · exact hs.early th' g₀ gs₀ q (h.before.trans hl) hold hserves hstream
      · left
        unfold parkedFor at hnot
        simpa [hserves, hstream] using hnot
    · rw [h.other hne] at hg
      exact hs.early th' g gs q hg hblocked hserves hstream

/-- The counters are right if nobody's calls change in number. -/
theorem Inv.counters (hs : Inv s) (h : Changes s t th l l') (hreader : t.reader = s.reader)
    (hcounts : countsParked l' = countsParked l) (r : ρ) :
    (t.reader r).requestFenceParked = countsParked (t.frames (.serve r .request)) := by
  rw [hreader, hs.parked]
  obtain rfl | hne := eq_or_ne (Thread.serve r .request) th
  · rw [h.self, h.before, hcounts]
  · rw [h.other hne]

section

variable (hs : Inv s) (h : Changes s t th (f :: fs) (f' :: fs))
  (hmutex : ∀ th', t.mutex = some th' ↔ if th' = th then f'.stage.holds = true else s.mutex = some th')
  (hnotify : f.stage ≠ .parkNotify) (hseen : f.stage.Seen s th → f'.stage.Seen s th)
  (hearly : ∀ q, f'.stage.blockedOn = some q → f.stage.blockedOn = some q ∨ s.parkedFor th q = false)

include hs h hmutex hnotify hseen hearly

/-- A call goes on. -/
theorem Inv.goes
    (hparked : ∀ r, (t.reader r).requestFenceParked = countsParked (t.frames (.serve r .request)))
    (hle : ∀ r, (t.reader r).requestFenceParked ≤ (s.reader r).requestFenceParked) : Inv t := by
  have hne : ∀ g gs, f :: fs = g :: gs → g.stage ≠ .parkNotify := by
    intro g gs hg
    obtain ⟨rfl, -⟩ := List.cons.inj hg
    exact hnotify
  refine hs.changes h ?_ (fun th' => ?_) hparked hle hne ?_ ?_
  · intro g gs hg
    obtain ⟨-, rfl⟩ := List.cons.inj hg
    exact hs.stack th f fs h.before
  · rw [hmutex]
    have hheld : f'.stage.holds = true ↔ ∃ g gs, f' :: fs = g :: gs ∧ g.stage.holds = true := by
      refine ⟨fun hf => ⟨f', fs, rfl, hf⟩, ?_⟩
      rintro ⟨g, gs, hg, hf⟩
      obtain ⟨rfl, -⟩ := List.cons.inj hg
      exact hf
    rw [hheld]
  · intro g gs hg
    obtain ⟨rfl, rfl⟩ := List.cons.inj hg
    exact (hs.seen th f fs h.before).imp
      (fun hold => (hseen hold).inside h.communication h.stream hle) (h.pending hne)
  · intro g gs q hg hblocked
    obtain ⟨rfl, rfl⟩ := List.cons.inj hg
    exact (hearly q hblocked).imp_left fun hold => ⟨f, fs, rfl, hold⟩

/-- A call goes on, without the counter. -/
theorem Inv.advance (hreader : t.reader = s.reader) (hcounts : f'.stage.counts = f.stage.counts) :
    Inv t := by
  refine hs.goes h hmutex hnotify hseen hearly (hs.counters h hreader ?_)
    fun r => Nat.le_of_eq (by rw [hreader])
  unfold countsParked
  rw [List.countP_cons, List.countP_cons, hcounts]

end

/-- The targets that an evaluation still has to look at. -/
def Eval.targets : Eval ρ → List (Target ρ)
  | .state => []
  | .next todo => todo
  | .observe q todo | .stopped q todo | .parked q todo => q :: todo

/-- The targets that the call is about to look at, or waits for. -/
def Stage.awaits : Stage ρ → List (Target ρ)
  | .evaluate _ e => e.targets
  | .wait q | .waiting q => [q]
  | _ => []

/-- A call at the stage holds nothing, is not counted and has no targets to look at. -/
structure Stage.Inert (stage : Stage ρ) : Prop where
  holds : stage.holds = false
  counts : stage.counts = false
  blockedOn : stage.blockedOn = none
  awaits : stage.awaits = []
  seen : ∀ (u : State ρ κ) th, stage.Seen u th

theorem captureNext_inert (q : Target ρ) (todo : List ρ) :
    (captureNext q todo).Inert (κ := κ) := by
  unfold captureNext
  split <;> exact ⟨rfl, rfl, rfl, rfl, fun _ _ => trivial⟩

/-- The steps of the capture hold nothing, and are not counted. -/
theorem captureStep_stage (h : s.captureStep th f = some f') :
    f.stage.holds = false ∧ f.stage.counts = false ∧ f.stage ≠ .parkNotify ∧
      f'.stage.Inert (κ := κ) := by
  unfold captureStep at h
  split at h
  next hstage =>
    cases h
    rw [hstage]
    refine ⟨rfl, rfl, nofun, ?_⟩
    split <;> exact ⟨rfl, rfl, rfl, rfl, fun _ _ => trivial⟩
  next hstage =>
    rw [hstage]
    refine ⟨rfl, rfl, nofun, ?_⟩
    split_ifs at h
    all_goals
      cases h
      exact ⟨rfl, rfl, rfl, rfl, fun _ _ => trivial⟩
  next hstage =>
    cases h
    rw [hstage]
    exact ⟨rfl, rfl, nofun, rfl, rfl, rfl, rfl, fun _ _ => trivial⟩
  next q todo hstage =>
    rw [hstage]
    refine ⟨rfl, rfl, nofun, ?_⟩
    split_ifs at h
    all_goals cases h
    · exact captureNext_inert q todo
    · exact captureNext_inert q todo
    · exact ⟨rfl, rfl, rfl, rfl, fun _ _ => trivial⟩
  next q todo hstage =>
    rw [hstage]
    refine ⟨rfl, rfl, nofun, ?_⟩
    split_ifs at h
    all_goals
      cases h
      exact captureNext_inert q todo
  next => cases h

theorem addParked_le {change : ℕ → ℕ} (hchange : ∀ n, change n ≤ n) (r : ρ) :
    ((s.addParked th change).reader r).requestFenceParked ≤ (s.reader r).requestFenceParked := by
  unfold addParked
  split
  next r' =>
    show (update s.reader r' _ r).requestFenceParked ≤ _
    obtain rfl | hr := eq_or_ne r r'
    · rw [update_self]
      exact hchange _
    · rw [update_of_ne hr]
  next => exact Nat.le_refl _

/-! ### Calls inside calls -/

/-- A call is made, or returns: the calls around it are where they take the mutex. -/
theorem Inv.nest (hs : Inv s) (h : Changes s t th l l') (hreader : t.reader = s.reader)
    (hmutex : t.mutex = s.mutex) (hstack : ∀ f fs, l' = f :: fs → ∀ g ∈ fs, g.stage = .lock)
    (hcounts : countsParked l' = countsParked l)
    (hbefore : ∀ f fs, l = f :: fs → f.stage.holds = false ∧ f.stage ≠ .parkNotify)
    (hafter : ∀ f fs, l' = f :: fs → f.stage.holds = false ∧ f.stage.Seen t th ∧ f.stage.blockedOn = none) :
    Inv t := by
  refine hs.changes h hstack (fun th' => ?_) (hs.counters h hreader hcounts)
    (fun r => Nat.le_of_eq (by rw [hreader])) (fun f fs hl => (hbefore f fs hl).2)
    (fun f fs hl => .inl (hafter f fs hl).2.1) fun f fs q hl hblocked => ?_
  · rw [hmutex]
    split_ifs with hne
    · subst hne
      rw [hs.mutex, h.before]
      refine iff_of_false ?_ ?_
      all_goals rintro ⟨f, fs, hl, hholds⟩
      · cases (hbefore f fs hl).1.symm.trans hholds
      · cases (hafter f fs hl).1.symm.trans hholds
    · rfl
  · cases (hafter f fs hl).2.2.symm.trans hblocked

theorem Inv.enter (hs : Inv s) (henter : s.mayEnter th = true) :
    Inv (s.setFrames th (s.entry :: s.frames th)) := by
  have htop : ∀ f fs, s.frames th = f :: fs → f.stage = .lock := by
    intro f fs hl
    rw [mayEnter, hl, Bool.and_eq_true, decide_eq_true_eq] at henter
    exact henter.2
  refine hs.nest ⟨rfl, rfl, rfl, rfl, rfl⟩ rfl rfl ?_ ?_ ?_ ?_
  · intro f fs hl g hg
    obtain ⟨-, rfl⟩ := List.cons.inj hl
    cases hframes : s.frames th with
    | nil =>
      rw [hframes] at hg
      cases hg
    | cons f₀ fs₀ =>
      rw [hframes] at hg
      rcases List.mem_cons.1 hg with rfl | hg
      · exact htop _ fs₀ hframes
      · exact hs.stack th f₀ fs₀ hframes g hg
  · unfold countsParked
    rfl
  · intro f fs hl
    rw [htop f fs hl]
    exact ⟨rfl, nofun⟩
  · intro f fs hl
    obtain ⟨rfl, -⟩ := List.cons.inj hl
    exact ⟨rfl, trivial, rfl⟩

section

variable (hs : Inv s) (hth : s.frames th = f :: fs)

include hs hth

theorem Inv.holds_iff : s.mutex = some th ↔ f.stage.holds = true := by
  rw [hs.mutex, hth]
  refine ⟨?_, fun hf => ⟨f, fs, rfl, hf⟩⟩
  rintro ⟨g, gs, hg, hf⟩
  obtain ⟨rfl, -⟩ := List.cons.inj hg
  exact hf

/-- A call that goes on neither takes the mutex nor gives it back. -/
theorem Inv.mutex_same (hholds : f'.stage.holds = f.stage.holds) (th' : Thread ρ κ) :
    s.mutex = some th' ↔ if th' = th then f'.stage.holds = true else s.mutex = some th' := by
  split_ifs with hne
  · subst hne
    rw [hs.holds_iff hth, hholds]
  · rfl

/-- A call goes on, without the mutex and without the counter. -/
theorem Inv.advance_same (hholds : f'.stage.holds = f.stage.holds)
    (hcounts : f'.stage.counts = f.stage.counts) (hnotify : f.stage ≠ .parkNotify)
    (hseen : f.stage.Seen s th → f'.stage.Seen s th)
    (hearly : ∀ q, f'.stage.blockedOn = some q → f.stage.blockedOn = some q ∨ s.parkedFor th q = false) :
    Inv (s.setFrames th (f' :: fs)) :=
  hs.advance ⟨hth, rfl, rfl, rfl, rfl⟩ (hs.mutex_same hth hholds) hnotify hseen hearly rfl hcounts

/-- A call takes the mutex. -/
theorem Inv.lock (hstage : f.stage = .lock ∨ f.stage = .woken) (hfree : s.mutex = none) :
    Inv ({ s with mutex := some th }.setFrames th ({ f with stage := .evaluate true .state } :: fs)) := by
  refine hs.advance ⟨hth, rfl, rfl, rfl, rfl⟩ (fun th' => ?_) ?_ (fun _ => trivial) nofun rfl ?_
  · show some th = some th' ↔ _
    rw [hfree]
    split_ifs with hne
    · exact iff_of_true (by rw [hne]) rfl
    · exact iff_of_false (fun h => hne (Option.some.inj h).symm) nofun
  · rcases hstage with hstage | hstage <;> rw [hstage] <;> nofun
  · rcases hstage with hstage | hstage <;> rw [hstage] <;> rfl

/-- A call gives the mutex back. -/
theorem Inv.release (hholds : f.stage.holds = true) (hreleased : f'.stage.holds = false)
    (hcounts : f'.stage.counts = f.stage.counts)
    (hseen : f.stage.Seen s th → f'.stage.Seen s th)
    (hearly : ∀ q, f'.stage.blockedOn = some q → f.stage.blockedOn = some q) :
    Inv ({ s with mutex := none }.setFrames th (f' :: fs)) := by
  refine hs.advance ⟨hth, rfl, rfl, rfl, rfl⟩ (fun th' => ?_) ?_ hseen (fun q hq => .inl (hearly q hq)) rfl
    hcounts
  · show none = some th' ↔ _
    have hheld : s.mutex = some th := (hs.holds_iff hth).2 hholds
    rw [hheld, hreleased]
    split_ifs with hne
    · exact iff_of_false nofun nofun
    · exact iff_of_false nofun fun h => hne (Option.some.inj h).symm
  · intro hstage
    rw [hstage] at hholds
    cases hholds

/-- An evaluation loads something. Under the mutex, what it finds is so. -/
theorem Inv.evaluate {held : Bool} {e : Eval ρ} (hstage : f.stage = .evaluate held e) :
    Inv (s.setFrames th (s.evaluateStep th f held e :: fs)) := by
  have hgoto : ∀ f' : Frame ρ, f'.stage.holds = held → f'.stage.counts = held →
      ((Stage.evaluate held e).Seen s th → f'.stage.Seen s th) →
      (∀ q, f'.stage.blockedOn = some q → s.parkedFor th q = false) →
      Inv (s.setFrames th (f' :: fs)) := by
    intro f' hholds hcounts hseen hearly
    refine hs.advance_same hth ?_ ?_ ?_ ?_ fun q hq => .inr (hearly q hq)
    all_goals rw [hstage]
    · exact hholds
    · exact hcounts
    · nofun
    · exact hseen
  have hend : Inv (s.setFrames th ({ f with stage := if held then .unlock else .done } :: fs)) := by
    cases held <;> exact hgoto _ rfl rfl (fun _ => trivial) nofun
  unfold evaluateStep
  split
  · by_cases hrunning : s.communication = .running
    · rw [if_pos hrunning]
      exact hgoto _ rfl rfl (.evaluate fun _ => hrunning) nofun
    · rw [if_neg hrunning]
      exact hend
  · exact hend
  · split_ifs
    · exact hgoto _ rfl rfl (.evaluate id) nofun
    · exact hgoto _ rfl rfl (.evaluate id) nofun
  · split_ifs with hreached
    · exact hgoto _ rfl rfl (.evaluate id) nofun
    · exact hgoto _ rfl rfl (.evaluate fun hrunning => ⟨hrunning, Nat.lt_of_not_le hreached⟩) nofun
  · split_ifs with hstopped
    · exact hgoto _ rfl rfl (.evaluate And.left) nofun
    · refine hgoto _ rfl rfl (.evaluate fun hseen => ?_) nofun
      exact ⟨hseen.1, hseen.2, Bool.eq_false_iff.2 hstopped⟩
  next q todo =>
    by_cases hparked : s.parkedFor th q = true
    · rw [if_pos hparked]
      exact hgoto _ rfl rfl (.evaluate And.left) nofun
    · rw [if_neg hparked]
      have hparked := Bool.eq_false_iff.2 hparked
      cases held with
      | false => exact hgoto _ rfl rfl (fun _ => trivial) nofun
      | true =>
        refine hgoto _ rfl rfl (fun hseen => ⟨hseen.1, hseen.2.1, hseen.2.2, hparked⟩) fun q hq => ?_
        cases hq
        exact hparked

/-- The counter of a request reader goes with its calls. -/
theorem counters_addParked {change : ℕ → ℕ}
    (hchange : countsParked (f' :: fs) = change (countsParked (f :: fs))) (r : ρ) :
    (((s.addParked th change).setFrames th (f' :: fs)).reader r).requestFenceParked =
      countsParked (((s.addParked th change).setFrames th (f' :: fs)).frames (.serve r .request)) := by
  show ((s.addParked th change).reader r).requestFenceParked =
    countsParked (update (s.addParked th change).frames th (f' :: fs) (.serve r .request))
  unfold addParked
  split
  next r' =>
    show (update s.reader r' _ r).requestFenceParked = countsParked (update s.frames _ _ _)
    obtain rfl | hr := eq_or_ne r r'
    · rw [update_self, update_self, hchange, ← hth, ← hs.parked]
    · have hne : (Thread.serve r .request : Thread ρ κ) ≠ .serve r' .request := by
        rintro hne
        injection hne with hne _
        exact hr hne
      rw [update_of_ne hr, update_of_ne hne]
      exact hs.parked r
  next hnot =>
    rw [update_of_ne (fun h => hnot r h.symm)]
    exact hs.parked r

/-- A thread that is no request reader does not announce itself. -/
theorem Inv.pass (hstage : f.stage = .park) (hserves : th.servesRequests = false) :
    Inv (s.setFrames th ({ f with stage := .lock } :: fs)) := by
  have h : Changes s (s.setFrames th ({ f with stage := .lock } :: fs)) th (f :: fs)
      ({ f with stage := .lock } :: fs) := ⟨hth, rfl, rfl, rfl, rfl⟩
  refine hs.goes h (hs.mutex_same hth ?_) ?_ (fun _ => trivial) nofun (fun r => ?_) fun _ => Nat.le_refl _
  · rw [hstage]
    rfl
  · rw [hstage]
    nofun
  · rw [h.other, ← hs.parked]
    · rfl
    · rintro rfl
      cases hserves

/-- A call is counted no more. -/
theorem Inv.unpark (hstage : f.stage = .unpark) :
    Inv ((s.addParked th (· - 1)).setFrames th ({ f with stage := .done } :: fs)) := by
  have h : Changes s ((s.addParked th (· - 1)).setFrames th ({ f with stage := .done } :: fs)) th (f :: fs)
      ({ f with stage := .done } :: fs) := by
    rw [s.addParked_eq]
    exact ⟨hth, rfl, rfl, rfl, rfl⟩
  refine hs.goes h (fun th' => ?_) ?_ (fun _ => trivial) nofun (counters_addParked hs hth ?_)
    (addParked_le fun n => Nat.sub_le n 1)
  · show (s.addParked th (· - 1)).mutex = some th' ↔ _
    rw [s.addParked_eq]
    exact hs.mutex_same hth (by rw [hstage]; rfl) th'
  · rw [hstage]
    nofun
  · unfold countsParked
    rw [List.countP_cons, List.countP_cons, hstage]
    rfl

theorem Inv.done (hstage : f.stage = .done) : Inv (s.setFrames th fs) := by
  have htop : ∀ g gs, fs = g :: gs → g.stage = .lock := by
    rintro g gs rfl
    exact hs.stack th f _ hth g List.mem_cons_self
  refine hs.nest ⟨hth, rfl, rfl, rfl, rfl⟩ rfl rfl ?_ ?_ ?_ ?_
  · rintro g gs rfl g' hg'
    exact hs.stack th f _ hth g' (List.mem_cons_of_mem _ hg')
  · unfold countsParked
    rw [List.countP_cons, hstage]
    rfl
  · intro g gs hg
    obtain ⟨rfl, -⟩ := List.cons.inj hg
    rw [hstage]
    exact ⟨rfl, nofun⟩
  · intro g gs hg
    rw [htop g gs hg]
    exact ⟨rfl, trivial, rfl⟩

end

/-- A request reader announces itself, and will notify the others. -/
theorem Inv.park (hs : Inv s) {r : ρ} (hth : s.frames (.serve r .request) = f :: fs)
    (hstage : f.stage = .park) :
    Inv ((s.addParked (.serve r .request) (· + 1)).setFrames (.serve r .request)
      ({ f with stage := .parkNotify } :: fs)) := by
  set t := (s.addParked (.serve r .request) (· + 1)).setFrames (.serve r .request)
    ({ f with stage := .parkNotify } :: fs) with ht
  have hself : t.frames (.serve r .request) = { f with stage := .parkNotify } :: fs :=
    update_self ..
  have hother : ∀ th', th' ≠ .serve r .request → t.frames th' = s.frames th' :=
    fun th' hne => update_of_ne hne ..
  refine ⟨fun th' g gs hg => ?_, fun th' => ?_, ?_, fun _ _ _ _ => ?_,
    fun th' g gs q hg hblocked hserves hstream => ?_⟩
  · obtain rfl | hne := eq_or_ne th' (.serve r .request)
    · rw [hself] at hg
      obtain ⟨-, rfl⟩ := List.cons.inj hg
      exact hs.stack _ f fs hth
    · rw [hother th' hne] at hg
      exact hs.stack th' g gs hg
  · show s.mutex = some th' ↔ _
    obtain rfl | hne := eq_or_ne th' (.serve r .request)
    · rw [hs.holds_iff hth, hstage]
      refine iff_of_false nofun ?_
      rintro ⟨g, gs, hg, hholds⟩
      obtain ⟨rfl, -⟩ := List.cons.inj (hself.symm.trans hg)
      cases hholds
    · rw [hother th' hne]
      exact hs.mutex th'
  · refine counters_addParked hs hth ?_
    unfold countsParked
    rw [List.countP_cons, List.countP_cons, hstage]
    rfl
  · exact .inr ⟨.serve r .request, .inr ⟨_, _, hself, rfl⟩⟩
  · have hne : th' ≠ .serve r .request := by
      rintro rfl
      obtain ⟨rfl, -⟩ := List.cons.inj (hself.symm.trans hg)
      cases hblocked
    rw [hother th' hne] at hg
    by_cases hr : q.reader = r
    · rw [hr]
      exact .inr ⟨_, _, hself, rfl⟩
    · have hthread : (Thread.serve q.reader .request : Thread ρ κ) ≠ .serve r .request := by
        intro heq
        injection heq with heq _
        exact hr heq
      rw [hother _ hthread]
      show (update s.reader r _ q.reader).requestFenceParked = 0 ∨ _
      rw [update_of_ne hr]
      exact hs.early th' g gs q hg hblocked hserves hstream

end

/-! ### Runs -/

theorem Inv.move {act : Action ρ κ} (hs : Inv s) (h : Move act s t) : Inv t := by
  cases h with
  | quiet hq => exact hs.quiet hq
  | notify th next _ hfree ht => exact ht ▸ hs.notify hfree
  | enter th _ henter ht => exact ht ▸ hs.enter henter
  | load th f f' fs hth hstep ht =>
    subst ht
    rcases hstep with hcapture | ⟨held, e, hstage, rfl⟩
    · obtain ⟨hholds, hcounts, hnotify, hinert⟩ := captureStep_stage hcapture
      exact hs.advance_same hth (hinert.holds.trans hholds.symm) (hinert.counts.trans hcounts.symm)
        hnotify (fun _ => hinert.seen s th) fun q hq => nomatch hinert.blockedOn.symm.trans hq
    · exact hs.evaluate hth hstage
  | spurious th f fs q hth hstage ht =>
    subst ht
    refine hs.advance_same hth ?_ ?_ ?_ (fun _ => trivial) nofun
    all_goals rw [hstage]
    · rfl
    · rfl
    · nofun
  | pass th f fs hth hstage hserves ht => exact ht ▸ hs.pass hth hstage hserves
  | park r f fs hth hstage ht => exact ht ▸ hs.park hth hstage
  | parkNotify th f fs hth hstage hfree ht => exact ht ▸ hs.parkNotify hth hstage hfree
  | lock th f fs hth hstage hfree ht => exact ht ▸ hs.lock hth hstage hfree
  | wait th f fs q hth hstage ht =>
    subst ht
    refine hs.release hth ?_ rfl ?_ ?_ ?_
    all_goals rw [hstage]
    · rfl
    · rfl
    · exact id
    · exact fun _ => id
  | unlock th f fs hth hstage ht =>
    subst ht
    refine hs.release hth ?_ rfl ?_ (fun _ => trivial) nofun
    all_goals rw [hstage]
    · rfl
    · rfl
  | unpark th f fs hth hstage ht => exact ht ▸ hs.unpark hth hstage
  | done th f fs hth hstage ht => exact ht ▸ hs.done hth hstage

/-- The invariant of every run. -/
theorem reachable_inv (h : (machine ρ κ).Reachable s) : Inv s :=
  h.invariant (fun _ => inv_init) fun _ _ _ hs hstep => hs.move (step_cases hstep)

/-! ### The targets of a call -/

theorem evaluateStep_awaits {held : Bool} {e : Eval ρ} (h : e.targets ⊆ f.targets) :
    (s.evaluateStep th f held e).stage.awaits ⊆ (s.evaluateStep th f held e).targets := by
  have hend : ∀ stage : Stage ρ, stage = .unlock ∨ stage = .done ∨ stage = .park →
      stage.awaits ⊆ f.targets := by
    rintro _ (rfl | rfl | rfl) <;> exact List.nil_subset _
  cases e with
  | state =>
    unfold evaluateStep
    by_cases hrunning : s.communication = .running
    · rw [if_pos hrunning]
      exact List.Subset.refl _
    · rw [if_neg hrunning]
      cases held
      · exact hend _ (.inr (.inl rfl))
      · exact hend _ (.inl rfl)
  | next todo =>
    cases todo with
    | nil =>
      cases held
      · exact hend _ (.inr (.inl rfl))
      · exact hend _ (.inl rfl)
    | cons q todo =>
      unfold evaluateStep
      dsimp only
      split_ifs
      · exact List.subset_of_cons_subset h
      · exact h
  | observe q todo | stopped q todo =>
    unfold evaluateStep
    dsimp only
    split_ifs
    · exact List.subset_of_cons_subset h
    · exact h
  | parked q todo =>
    unfold evaluateStep
    dsimp only
    by_cases hparked : s.parkedFor th q = true
    · rw [if_pos hparked]
      exact List.subset_of_cons_subset h
    · rw [if_neg hparked]
      cases held with
      | false => exact hend _ (.inr (.inr rfl))
      | true =>
        refine List.cons_subset.2 ⟨h List.mem_cons_self, List.nil_subset _⟩

/-- A call looks at nothing but its targets. -/
theorem reachable_awaits (h : (machine ρ κ).Reachable s) (hf : f ∈ s.frames th) :
    f.stage.awaits ⊆ f.targets := by
  refine h.invariant (I := fun s => ∀ th, ∀ f ∈ s.frames th, f.stage.awaits ⊆ f.targets) ?_ ?_ th f hf
  · rintro s ⟨-, -, -, -, -, -, -, hframes⟩ th f hf
    rw [hframes] at hf
    cases hf
  · intro s act t hs hstep th f' hf'
    cases (step_cases hstep).origin hf' with
    | same hf => exact hs th f' hf
    | fresh _ hf' =>
      subst hf'
      exact List.nil_subset _
    | capture f hf hcapture =>
      rw [(captureStep_stage hcapture).2.2.2.awaits]
      exact List.nil_subset _
    | evaluate f held e hf hstage heq =>
      subst heq
      refine evaluateStep_awaits ?_
      have hold := hs th f hf
      rw [hstage] at hold
      exact hold
    | passage f stage hf hpassage heq =>
      subst heq
      have hold := hs th f hf
      show stage.awaits ⊆ f.targets
      generalize f.stage = stage₀ at hold hpassage
      cases hpassage with
      | wait q => exact hold
      | _ => exact List.nil_subset _

/-! ### Wakeups -/

/-- The thread whose step it is. -/
def Action.thread : Action ρ κ → Option (Thread ρ κ)
  | .serve r stream | .fetch r stream | .quit r stream | .finish r stream => some (.serve r stream)
  | .stopNowait th _ | .setState th _ | .proceed th | .enter th | .fence th => some th
  | _ => none

/-- The next step of the thread takes `m_delivery_mutex` and wakes every call that waits. -/
def State.AtNotification (s : State ρ κ) (th : Thread ρ κ) : Prop :=
  ∃ act : Action ρ κ, act.thread = some th ∧ (s.mutex ≠ none → s.step act = none) ∧
    (s.mutex = none → ∃ t, s.step act = some t ∧ ∀ th' f fs q, s.frames th' = f :: fs →
      f.stage = .waiting q → t.frames th' = { f with stage := .woken } :: fs)

/-- The thread comes to a notification by steps of its own, during which nothing else is needed. -/
def State.WillNotify (s : State ρ κ) (th : Thread ρ κ) : Prop :=
  ∃ acts u, (machine ρ κ).exec s acts = some u ∧ (∀ act ∈ acts, act.thread = some th) ∧
    u.frames = s.frames ∧ u.mutex = s.mutex ∧ u.AtNotification th

theorem wakeAll_waiting (hth : s.frames th = f :: fs)
    (hstage : f.stage = .waiting q) : s.wakeAll.frames th = { f with stage := .woken } :: fs := by
  have hwake : f.wake = { f with stage := .woken } := by
    unfold Frame.wake
    rw [hstage]
  rw [frames_wakeAll hth, hwake]

theorem atNotification_notify {next : Place} (hpc : s.pc th = .notify next) :
    s.AtNotification th := by
  refine ⟨.proceed th, rfl, fun hheld => ?_, fun hfree => ⟨s.wakeAll.setPc th (.at next), ?_, ?_⟩⟩
  · rw [step, proceed, hpc]
    exact if_neg hheld
  · rw [step, proceed, hpc]
    exact if_pos hfree
  · exact fun th' f fs q hth' hstage => wakeAll_waiting hth' hstage

theorem atNotification_parkNotify (hth : s.frames th = f :: fs) (hstage : f.stage = .parkNotify) :
    s.AtNotification th := by
  refine ⟨.fence th, rfl, fun hheld => ?_, fun hfree =>
    ⟨s.wakeAll.setFrames th ({ f with stage := .lock } :: fs), ?_, ?_⟩⟩
  · simp only [step, fenceStep, hth, hstage]
    exact if_neg hheld
  · simp only [step, fenceStep, hth, hstage]
    exact if_pos hfree
  · intro th' g gs q hth' hwaiting
    have hne : th' ≠ th := by
      rintro rfl
      obtain ⟨rfl, -⟩ := List.cons.inj (hth.symm.trans hth')
      cases hstage.symm.trans hwaiting
    exact (update_of_ne hne _ _).trans (wakeAll_waiting hth' hwaiting)

theorem Owes.willNotify (h : (machine ρ κ).Reachable s) (howes : s.Owes th) : s.WillNotify th := by
  have hone : ∀ {act u next}, s.step act = some u → act.thread = some th → u.frames = s.frames →
      u.mutex = s.mutex → u.pc th = .notify next → s.WillNotify th := by
    intro act u next hstep hact hframes hmutex hpc
    refine ⟨[act], u, Machine.exec_cons hstep [], fun a ha => ?_, hframes, hmutex, atNotification_notify hpc⟩
    rw [List.mem_singleton.1 ha]
    exact hact
  rcases howes with howes | ⟨f, fs, hth, hstage⟩
  · cases hpc : s.pc th with
    | notify next => exact ⟨[], s, rfl, nofun, rfl, rfl, atNotification_notify hpc⟩
    | exitStored =>
      cases th with
      | control k =>
        have hphase := reachable_control h k
        rw [hpc] at hphase
        cases hphase
      | serve r stream =>
        have hstep : s.step (.serve r stream) =
            some ((s.setStream r stream { s.stream r stream with stopped := true }).setPc
              (.serve r stream) (.notify .ended)) := by
          rw [step, serveStep, hpc]
        exact hone hstep rfl rfl rfl (update_self ..)
    | stopReplies r =>
      have hstep : s.step (.proceed th) =
          some ((s.setStream r .reply { s.stream r .reply with stopped := true }).setPc th
            (.notify .user)) := by
        rw [step, proceed, hpc]
      exact hone hstep rfl rfl rfl (update_self ..)
    | _ =>
      rw [hpc] at howes
      cases howes
  · exact ⟨[], s, rfl, nofun, rfl, rfl, atNotification_parkNotify hth hstage⟩

/-! ### The condition of the wait -/

/-- What `all_targets_satisfied` looks for in a target, as of one moment. -/
def State.satisfied (s : State ρ κ) (th : Thread ρ κ) (q : Target ρ) : Bool :=
  (s.reader q.reader).status = .destroyed || q.target ≤ (s.stream q.reader q.stream).sequence ||
    (s.stream q.reader q.stream).stopped || s.parkedFor th q

/-- The condition of the wait, as of one moment. -/
def State.allTargetsSatisfied (s : State ρ κ) (th : Thread ρ κ) (targets : List (Target ρ)) : Bool :=
  s.communication ≠ .running || targets.all (s.satisfied th)

/-- A stream whose reader is gone had stopped before. -/
theorem not_satisfied_of_seen (h : (machine ρ κ).Reachable s)
    (hseen : (Stage.waiting q).Seen s th) : s.satisfied th q = false := by
  obtain ⟨-, hunreached, hstopped, hparked⟩ := hseen
  have hdestroyed : (s.reader q.reader).status ≠ .destroyed := by
    intro hdestroyed
    have hok := reachable_view h q.reader q.stream
    have htrue : (s.stream q.reader q.stream).stopped = true := hok.ended (hok.destroyed hdestroyed)
    exact Bool.false_ne_true (hstopped.symm.trans htrue)
  unfold satisfied
  rw [hstopped, hparked, decide_eq_false hdestroyed, decide_eq_false (Nat.not_le_of_lt hunreached)]
  rfl

/-- A request reader that waits is counted. -/
theorem Inv.parked_pos (hs : Inv s) {r : ρ}
    (hth : s.frames (.serve r .request) = f :: fs) (hstage : f.stage = .waiting q) :
    (s.reader r).requestFenceParked ≠ 0 := by
  have hcounts : f.stage.counts = true := by rw [hstage]; rfl
  rw [hs.parked, hth]
  unfold countsParked
  rw [List.countP_cons, hcounts]
  exact Nat.succ_ne_zero _

/-- No set of request readers waits for itself: whoever waits for a stream has found its reader outside of
a fence, and a reader that has entered one since has not come to wait. A call whose condition has become true
will be notified. -/
theorem fences_wake (h : (machine ρ κ).Reachable s) :
    (∀ S : Set ρ, S.Nonempty → ¬∀ r ∈ S, ∃ f fs q q', s.frames (.serve r .request) = f :: fs ∧
      f.stage = .waiting q ∧ q'.reader ∈ S ∧ q'.stream = .request ∧
      (q' = q ∨ q' ∈ f.targets ∧ s.satisfied (.serve r .request) q' = false)) ∧
    ∀ th f fs q, s.frames th = f :: fs → f.stage = .waiting q →
      s.allTargetsSatisfied th f.targets = true → ∃ th', s.WillNotify th' := by
  have hs := reachable_inv h
  constructor
  · rintro S ⟨r, hr⟩ hall
    obtain ⟨f, fs, q, q', hth, hstage, hmem, hstream, hwaits⟩ := hall r hr
    obtain ⟨g, gs, q₁, -, hth', hstage', -⟩ := hall q'.reader hmem
    have hcounted := hs.parked_pos hth' hstage'
    rcases hwaits with rfl | ⟨-, hunsatisfied⟩
    · rcases hs.early _ f fs q' hth (by rw [hstage]; rfl) rfl hstream with hzero | ⟨g', gs', hg', hnotify⟩
      · exact hcounted hzero
      · obtain ⟨rfl, -⟩ := List.cons.inj (hth'.symm.trans hg')
        cases hstage'.symm.trans hnotify
    · have hparked : s.parkedFor (.serve r .request) q' = true := by
        unfold parkedFor
        simp [hstream, Thread.servesRequests, hcounted]
      unfold satisfied at hunsatisfied
      rw [hparked, Bool.or_true] at hunsatisfied
      cases hunsatisfied
  · intro th f fs q hth hstage hsatisfied
    have hmem : q ∈ f.targets := by
      refine reachable_awaits h (hth ▸ List.mem_cons_self) ?_
      rw [hstage]
      exact List.mem_singleton_self q
    rcases hs.seen th f fs hth with hseen | ⟨th', howes⟩
    · rw [hstage] at hseen
      exfalso
      unfold allTargetsSatisfied at hsatisfied
      rw [Bool.or_eq_true, decide_eq_true_eq] at hsatisfied
      rcases hsatisfied with hstate | hall
      · exact hstate hseen.1
      · have hq := List.all_eq_true.1 hall q hmem
        exact Bool.false_ne_true ((not_satisfied_of_seen h hseen).symm.trans hq)
    · exact ⟨th', Owes.willNotify h howes⟩

/-- Nothing has begun. -/
def idle : State Bool Unit where
  communication := .starting
  readers := []
  reader _ := ⟨.absent, .normal, false, 0⟩
  stream _ _ := ⟨0, 0, 0, invalidSequence, false, false⟩
  mutex := none
  pc
    | .serve _ _ => .unstarted
    | .control _ => .at .user
  frames _ := []

/-- Two request readers, each in a handler. -/
def bothHandle : List (Action Bool Unit) :=
  .run :: [false, true].flatMap fun r =>
    [.add r, .serve r .request, .serve r .request, .proceed (.serve r .request), .write r .request,
      .fetch r .request]

/-- Both enter a fence and find the other outside; the first waits when the second announces itself. -/
def crossingFences : List (Action Bool Unit) :=
  bothHandle ++ [false, true].flatMap (fun r => .enter (.serve r .request) ::
      List.replicate 19 (.fence (.serve r .request))) ++
    List.replicate 9 (.fence (.serve false .request)) ++ [.fence (.serve true .request)]

theorem fences_wake_crossing : ∃ s : State Bool Unit, (machine Bool Unit).Reachable s ∧
    (s.frames (.serve false .request)).map Frame.stage = [.waiting ⟨true, .request, 1⟩] ∧
    (s.frames (.serve true .request)).map Frame.stage = [.parkNotify] ∧ ∃ th, s.WillNotify th := by
  obtain ⟨s, hreach, hwaiting, hnotify, hsatisfied⟩ : ∃ s : State Bool Unit,
      (machine Bool Unit).Reachable s ∧
      (s.frames (.serve false .request)).map Frame.stage = [.waiting ⟨true, .request, 1⟩] ∧
      (s.frames (.serve true .request)).map Frame.stage = [.parkNotify] ∧
      ((s.frames (.serve false .request)).all fun f =>
        s.allTargetsSatisfied (.serve false .request) f.targets) = true :=
    Machine.exists_reachable_of_exec (s := idle) crossingFences
      ⟨rfl, rfl, rfl, fun _ => rfl, fun _ _ => rfl, fun _ _ => rfl, fun _ => rfl, fun _ => rfl⟩
      (by decide +kernel)
  refine ⟨s, hreach, hwaiting, hnotify, ?_⟩
  have hne : s.frames (.serve false .request) ≠ [] := by
    intro hnil
    rw [hnil] at hwaiting
    cases hwaiting
  obtain ⟨f, fs, hth⟩ := List.exists_cons_of_ne_nil hne
  rw [hth] at hwaiting hsatisfied
  exact (fences_wake hreach).2 _ f fs _ hth (List.cons.inj hwaiting).1
    (List.all_eq_true.1 hsatisfied f List.mem_cons_self)

end Sintra.Messaging.Fence
