import Sintra.Messaging.DeliveryFenceWakeups

/-!
# What a fence has waited for

When a fence returns, the streams that it has not left out have been handled up to the heads that it
captured. This rests on the progress of a stream being that of its thread. It is not before the thread has
published it for the first time: the progress of a new reader is the invalid sequence, which is above every
target (`fence_unstarted`). It is not, either, for a reader that is evicted and goes on from the head.
-/

set_option linter.unusedSectionVars false

namespace Sintra.Messaging.Fence

open State Machine

variable {ρ κ : Type*} [DecidableEq ρ] [DecidableEq κ] {act : Action ρ κ} {s t : State ρ κ}

/-- No reader is evicted, and a fence is entered when the process is running and every reader has published
its progress. -/
def Orderly (s : State ρ κ) : Action ρ κ → Prop
  | .evict _ _ => False
  | .enter _ => s.communication = .running ∧
      ∀ r ∈ s.readers, (s.stream r .request).published = true ∧ (s.stream r .reply).published = true
  | _ => True

instance (s : State ρ κ) : DecidablePred (Orderly s)
  | .evict _ _ => inferInstanceAs (Decidable False)
  | .enter _ => inferInstanceAs (Decidable (_ ∧ _))
  | .run | .write _ _ | .add _ | .remove _ | .destroy _ | .pauseReader _ | .serve _ _ | .fetch _ _
  | .quit _ _ | .finish _ _ | .stopNowait _ _ | .setState _ _ | .proceed _ | .fence _ | .spurious _ =>
    inferInstanceAs (Decidable True)

/-! ### The progress of a stream -/

/-- What holds of a stream that is never evicted. -/
structure View.Progress (v : View) : Prop where
  leading : v.x.leading < invalidSequence
  reading : v.x.reading ≤ v.x.leading
  handled : v.x.handled ≤ v.x.reading
  settled : v.phase ≠ .handling → v.x.handled = v.x.reading
  absent : v.status = .absent → v.phase = .unstarted
  begun : v.x.published = true → v.phase ≠ .unstarted ∧ v.phase ≠ .starting
  sequence : v.x.published = true → v.x.sequence ≤ v.x.handled

section

variable {r : ρ} {stream : Stream} {v v' : View}

theorem View.Progress.turn (hv : v.Progress) (hevict : act ≠ .evict r stream)
    (h : Turn act r stream v v') : v'.Progress := by
  have habsent : ∀ {p : Phase}, v.phase = p → p ≠ .unstarted → v.status = .absent → False :=
    fun hphase hne hstatus => hne (hphase.symm.trans (hv.absent hstatus))
  cases h with
  | keep h => exact h ▸ hv
  | write hlt h =>
    exact h ▸ { hv with leading := hlt, reading := Nat.le_succ_of_le hv.reading }
  | evict hact _ => exact absurd hact hevict
  | add hstatus h =>
    have hpublished : v.x.published = true → False := fun hp => (hv.begun hp).1 (hv.absent hstatus)
    exact h ▸ ⟨hv.leading, Nat.le_refl _, Nat.le_refl _, fun _ => rfl, nofun,
      fun hp => (hpublished hp).elim, fun hp => (hpublished hp).elim⟩
  | remove _ h | destroy _ h => exact h ▸ { hv with absent := nofun }
  | start hstatus hphase h =>
    have hsettled : v.x.handled = v.x.reading := hv.settled (hphase ▸ nofun)
    exact h ▸ { hv with
      settled := fun _ => hsettled
      absent := fun ha => (hstatus ha).elim
      begun := fun hp => ((hv.begun hp).1 hphase).elim }
  | publish hphase h =>
    have hsettled : v.x.handled = v.x.reading := by
      refine hv.settled ?_
      rcases hphase with hphase | hphase <;> rw [hphase] <;> nofun
    refine h ▸ ⟨hv.leading, hv.reading, hv.handled, fun _ => hsettled, fun ha => ?_, fun _ => ⟨nofun, nofun⟩,
      fun _ => Nat.le_of_eq hsettled.symm⟩
    rcases hphase with hphase | hphase <;> exact (habsent hphase nofun ha).elim
  | fetch hphase hlt h =>
    exact h ▸ ⟨hv.leading, hlt, Nat.le_succ_of_le hv.handled, fun hne => (hne rfl).elim,
      fun ha => (habsent hphase nofun ha).elim, fun _ => ⟨nofun, nofun⟩, hv.sequence⟩
  | finish hphase h =>
    exact h ▸ ⟨hv.leading, hv.reading, Nat.le_refl _, fun _ => rfl,
      fun ha => (habsent hphase nofun ha).elim, fun _ => ⟨nofun, nofun⟩,
      fun hp => Nat.le_trans (hv.sequence hp) hv.handled⟩
  | quit hphase _ h | exitStop hphase h =>
    exact h ▸ ⟨hv.leading, hv.reading, hv.handled, fun _ => hv.settled (hphase ▸ nofun),
      fun ha => (habsent hphase nofun ha).elim, fun _ => ⟨nofun, nofun⟩, hv.sequence⟩
  | exitStore hphase h =>
    have hsettled : v.x.handled = v.x.reading := hv.settled (hphase ▸ nofun)
    exact h ▸ ⟨hv.leading, hv.reading, hv.handled, fun _ => hsettled,
      fun ha => (habsent hphase nofun ha).elim, fun _ => ⟨nofun, nofun⟩, fun _ => Nat.le_of_eq hsettled.symm⟩
  | request _ h | stop _ h => exact h ▸ { hv with }

/-- A stream that has begun goes on for good: what is handled and what has stopped stays so. -/
theorem View.Progress.later (hv : v.Progress) (hevict : act ≠ .evict r stream)
    (h : Turn act r stream v v') : v.x.handled ≤ v'.x.handled ∧
      (v.x.published = true → v'.x.published = true) ∧
      (v.x.published = true → v.x.stopped = true → v'.x.stopped = true) := by
  cases h with
  | evict hact _ => exact absurd hact hevict
  | add hstatus h =>
    exact h ▸ ⟨Nat.le_trans hv.handled hv.reading, id, fun _ => id⟩
  | start _ hphase h => exact h ▸ ⟨Nat.le_refl _, id, fun hp => ((hv.begun hp).1 hphase).elim⟩
  | publish _ h => exact h ▸ ⟨Nat.le_refl _, fun _ => rfl, fun _ => id⟩
  | finish _ h => exact h ▸ ⟨hv.handled, id, fun _ => id⟩
  | exitStop _ h | stop _ h => exact h ▸ ⟨Nat.le_refl _, id, fun _ _ => rfl⟩
  | keep h | fetch _ _ h | quit _ _ h | write _ h | remove _ h | destroy _ h | exitStore _ h | request _ h =>
    exact h ▸ ⟨Nat.le_refl _, id, fun _ => id⟩

end

theorem Orderly.no_evict (h : Orderly s act) (r : ρ) (stream : Stream) : act ≠ .evict r stream := by
  rintro rfl
  exact h

/-- The progress of a stream is not above what its thread has handled. -/
theorem reachable_progress (h : (machine ρ κ).ReachableUnder Orderly s) (r : ρ) (stream : Stream) :
    (s.view r stream).Progress := by
  refine ReachableUnder.invariant (I := fun s => ∀ r stream, (s.view r stream).Progress) ?_
    (fun s a t hs hI horderly hstep r stream => (hI r stream).turn (horderly.no_evict r stream)
      (step_turn (reachable_stops hs.reachable) hstep r stream)) h r stream
  rintro s ⟨-, -, -, hreader, hstream, hserve, -, -⟩ r stream
  unfold view
  rw [hreader, hstream, hserve]
  have hpos : 0 < invalidSequence := by decide
  exact ⟨hpos, Nat.le_refl _, Nat.le_refl _, fun _ => rfl, fun _ => rfl, nofun, nofun⟩

/-! ### What a step leaves to fences -/

/-- What a fence has found stays so. -/
structure Later (s t : State ρ κ) : Prop where
  started : s.communication ≠ .starting → t.communication ≠ .starting
  running : s.communication ≠ .starting → t.communication = .running → s.communication = .running
  handled : ∀ r stream, (s.stream r stream).handled ≤ (t.stream r stream).handled
  published : ∀ r stream, (s.stream r stream).published = true → (t.stream r stream).published = true
  stopped : ∀ r stream, (s.stream r stream).published = true → (s.stream r stream).stopped = true →
    (t.stream r stream).stopped = true

/-- The process runs once. -/
theorem step_communication (h : s.step act = some t) : t.communication = s.communication ∨
    s.communication = .starting ∨ t.communication = .paused ∨ t.communication = .stopped := by
  cases act with
  | run =>
    rw [State.step, Option.ite_none_right_eq_some] at h
    exact .inr (.inl h.1)
  | setState th c =>
    obtain ⟨hg, rfl⟩ := of_guard h
    rcases hg.2 with ⟨-, rfl⟩ | ⟨-, rfl⟩
    · exact .inr (.inr (.inl rfl))
    · exact .inr (.inr (.inr rfl))
  | remove r | destroy r | pauseReader r | stopNowait th r | enter th | write r stream | evict r stream | add r | fetch r stream | quit r stream | finish r stream =>
    obtain ⟨-, rfl⟩ := of_guard h
    exact .inl rfl
  | serve r stream =>
    simp only [State.step, State.serveStep] at h
    split at h
    case h_2 | h_3 | h_4 | h_5 => exact Option.some.inj h ▸ .inl rfl
    next =>
      obtain ⟨-, rfl⟩ := of_guard h
      exact .inl rfl
    next => cases h
  | proceed th =>
    simp only [State.step, State.proceed] at h
    split at h
    case h_1 | h_2 => exact Option.some.inj h ▸ .inl rfl
    next =>
      obtain ⟨-, rfl⟩ := of_guard h
      exact .inl rfl
    next => cases h
  | fence th => exact .inl (fenceStep_keeps h).1
  | spurious th =>
    obtain ⟨fs, rfl⟩ := spurious_eq h
    exact .inl rfl

theorem later_step (hs : (machine ρ κ).ReachableUnder Orderly s) (horderly : Orderly s act)
    (h : s.step act = some t) : Later s t := by
  have hview := fun r stream => (reachable_progress hs r stream).later (horderly.no_evict r stream)
    (step_turn (reachable_stops hs.reachable) h r stream)
  refine ⟨fun hstarted => ?_, fun hstarted hrunning => ?_, fun r stream => (hview r stream).1,
    fun r stream => (hview r stream).2.1, fun r stream => (hview r stream).2.2⟩
  · rcases step_communication h with hsame | hstarting | hpaused | hstopped
    · rwa [hsame]
    · exact absurd hstarting hstarted
    · rw [hpaused]
      nofun
    · rw [hstopped]
      nofun
  · rcases step_communication h with hsame | hstarting | hpaused | hstopped
    · rwa [← hsame]
    · exact absurd hstarting hstarted
    · cases hpaused.symm.trans hrunning
    · cases hstopped.symm.trans hrunning

/-! ### Calls -/

namespace Stage

/-- The readers whose streams the capture may still look at. -/
def readers : Stage ρ → List ρ
  | .capture todo => todo
  | .head r _ todo => r :: todo
  | .exempt q todo | .observe q todo => q.reader :: todo
  | _ => []

/-- The capture has still to look at the head of the stream. -/
def Uncaptured : Stage ρ → ρ → Stream → Prop
  | .capture todo, r, _ => r ∈ todo
  | .head r' stream' todo, r, stream => r ∈ todo ∨ r = r' ∧ (stream = stream' ∨ stream' = .request)
  | .exempt q todo, r, stream | .observe q todo, r, stream =>
    r ∈ todo ∨ r = q.reader ∧ q.stream = .request ∧ stream = .reply
  | _, _, _ => False

/-- The captured heads that the call need not have found reached. -/
def unsettled (targets : List (Target ρ)) : Stage ρ → List (Target ρ)
  | .exempt q _ | .observe q _ => q :: targets
  | .evaluate _ .state => targets
  | .evaluate _ e => e.targets
  | .unlock | .unpark | .done => []
  | _ => targets

end Stage

/-- The stream has been handled up to the head, or has stopped, or was left out. -/
def State.Settled (s : State ρ κ) (f : Frame ρ) (q : Target ρ) : Prop :=
  q.target ≤ (s.stream q.reader q.stream).handled ∨ (s.stream q.reader q.stream).stopped = true ∨
    q ∈ f.exempted ∨ q ∈ f.passed

structure FrameOk (s : State ρ κ) (f : Frame ρ) : Prop where
  started : s.communication ≠ .starting
  coming : ∀ r ∈ f.stage.readers, ∀ stream, (s.stream r stream).published = true
  required : ∀ q ∈ f.required, (s.stream q.reader q.stream).published = true ∧ q.target < invalidSequence
  passed : f.passed ⊆ f.targets
  covered : s.communication = .running → ∀ q ∈ f.required, s.Settled f q ∨ q ∈ f.stage.unsettled f.targets
  complete : ∀ r ∈ f.entered, r ∉ f.skipped → ∀ stream,
    (∃ q ∈ f.required, q.reader = r ∧ q.stream = stream) ∨ f.stage.Uncaptured r stream

section

variable {th : Thread ρ κ} {f f' : Frame ρ} {q : Target ρ}

theorem State.Settled.imp {p : Prop} (h : s.Settled f q) (hexempted : f.exempted ⊆ f'.exempted)
    (hpassed : q ∈ f.passed → s.Settled f' q ∨ p) : s.Settled f' q ∨ p := by
  rcases h with hhandled | hstopped | hleft | hleft
  · exact .inl (.inl hhandled)
  · exact .inl (.inr (.inl hstopped))
  · exact .inl (.inr (.inr (.inl (hexempted hleft))))
  · exact hpassed hleft

theorem FrameOk.later (hf : FrameOk s f) (h : Later s t) : FrameOk t f := by
  refine ⟨h.started hf.started, fun r hr stream => h.published _ _ (hf.coming r hr stream),
    fun q hq => ⟨h.published _ _ (hf.required q hq).1, (hf.required q hq).2⟩, hf.passed,
    fun hrunning q hq => ?_, hf.complete⟩
  refine (hf.covered (h.running hf.started hrunning) q hq).imp_left ?_
  rintro (hhandled | hstopped | hleft)
  · exact .inl (Nat.le_trans hhandled (h.handled _ _))
  · exact .inr (.inl (h.stopped _ _ (hf.required q hq).1 hstopped))
  · exact .inr (.inr hleft)

theorem frameOk_entry (hrunning : s.communication = .running)
    (hpublished : ∀ r ∈ s.readers, ∀ stream, (s.stream r stream).published = true) :
    FrameOk s s.entry := by
  refine ⟨by rw [hrunning]; nofun, hpublished, nofun, List.nil_subset _, nofun, fun r hr _ stream => .inr ?_⟩
  exact (List.mem_filter.1 hr).1

/-- The capture is done with a stream: its head is settled, or one of the targets. -/
theorem FrameOk.next {targets exempted : List (Target ρ)} {todo : List ρ} (hf : FrameOk s f)
    (hstage : f.stage = .exempt q todo ∨ f.stage = .observe q todo) (htargets : f.targets ⊆ targets)
    (hexempted : f.exempted ⊆ exempted)
    (hq : q ∈ f.required → s.Settled { f with exempted := exempted } q ∨ q ∈ targets) :
    FrameOk s { f with targets := targets, exempted := exempted, stage := captureNext q todo } := by
  have hreaders : f.stage.readers = q.reader :: todo := by
    rcases hstage with hstage | hstage <;> rw [hstage] <;> rfl
  have hunsettled : f.stage.unsettled f.targets = q :: f.targets := by
    rcases hstage with hstage | hstage <;> rw [hstage] <;> rfl
  have huncaptured : ∀ r stream, f.stage.Uncaptured r stream →
      r ∈ todo ∨ r = q.reader ∧ q.stream = .request ∧ stream = .reply := by
    rcases hstage with hstage | hstage <;> rw [hstage] <;> exact fun _ _ => id
  refine ⟨hf.started, fun r hr stream => hf.coming r ?_ stream, hf.required,
    fun q' hq' => htargets (hf.passed hq'), fun hrunning q' hq' => ?_, fun r hr hskipped stream => ?_⟩
  · rw [hreaders]
    revert hr
    show r ∈ (captureNext q todo).readers → _
    unfold captureNext
    split
    · exact id
    · exact List.mem_cons_of_mem _
  · have hnext : (captureNext q todo).unsettled targets = targets := by
      unfold captureNext
      split <;> rfl
    show s.Settled _ q' ∨ q' ∈ (captureNext q todo).unsettled targets
    rw [hnext]
    rcases hf.covered hrunning q' hq' with hsettled | hmem
    · exact hsettled.imp hexempted fun hpassed => .inl (.inr (.inr (.inr hpassed)))
    · rw [hunsettled] at hmem
      rcases List.mem_cons.1 hmem with rfl | hmem
      · exact hq hq'
      · exact .inr (htargets hmem)
  · refine (hf.complete r hr hskipped stream).imp_right fun hr => ?_
    show (captureNext q todo).Uncaptured r stream
    unfold captureNext
    rcases huncaptured r stream hr with hmem | ⟨rfl, hrequest, rfl⟩
    · split
      · exact .inl hmem
      · exact hmem
    · rw [hrequest]
      exact .inr ⟨rfl, .inl rfl⟩

variable {stage : Stage ρ}

/-- The stage written out. -/
theorem FrameOk.of_stage (hf : FrameOk s f) (hstage : f.stage = stage) :
    FrameOk s { f with stage := stage } := by
  rw [← hstage]
  exact hf

theorem FrameOk.capture (hf : FrameOk s f) (hprogress : ∀ r stream, (s.view r stream).Progress)
    (h : s.captureStep th f = some f') : FrameOk s f' := by
  unfold captureStep at h
  split at h
  next hstage =>
    cases h
    refine ⟨hf.started, ?_, hf.required, hf.passed, fun hrunning q hq => ?_, fun r hr hskipped stream => ?_⟩
    · split <;> exact nofun
    · have hold := hf.covered hrunning q hq
      rw [hstage] at hold
      refine hold.imp_right fun hmem => ?_
      split
      next hnil => exact hnil ▸ hmem
      next => exact hmem
    · have hold := hf.complete r hr hskipped stream
      rw [hstage] at hold
      exact .inl (hold.resolve_right nofun)
  next r todo hstage =>
    have hat := hf.of_stage hstage
    split_ifs at h
    all_goals cases h
    · refine { hat with complete := fun r' hr' hskipped stream => ?_ }
      refine (hat.complete r' hr' hskipped stream).imp_right fun hmem => ?_
      rcases List.mem_cons.1 hmem with rfl | hmem
      · exact .inr ⟨rfl, .inr rfl⟩
      · exact .inl hmem
    · refine { hat with
        coming := fun r' hr' => hat.coming r' (List.mem_cons_of_mem _ hr')
        complete := fun r' hr' hskipped stream => ?_ }
      have hne := List.ne_of_not_mem_cons hskipped
      refine (hat.complete r' hr' (List.not_mem_of_not_mem_cons hskipped) stream).imp_right fun hmem => ?_
      exact (List.mem_cons.1 hmem).resolve_left hne
  next r stream todo hstage =>
    cases h
    have hat := hf.of_stage hstage
    refine { hat with
      required := fun q hq => ?_
      covered := fun hrunning q hq => ?_
      complete := fun r' hr' hskipped stream' => ?_ }
    · rcases List.mem_cons.1 hq with rfl | hq
      · exact ⟨hat.coming r List.mem_cons_self stream, (hprogress r stream).leading⟩
      · exact hf.required q hq
    · rcases List.mem_cons.1 hq with rfl | hq
      · exact .inr List.mem_cons_self
      · exact (hat.covered hrunning q hq).imp_right (List.mem_cons_of_mem _)
    · rcases hat.complete r' hr' hskipped stream' with ⟨q, hq, hreader, hstream⟩ | hmem | ⟨rfl, hstream⟩
      · exact .inl ⟨q, List.mem_cons_of_mem _ hq, hreader, hstream⟩
      · exact .inr (.inl hmem)
      · by_cases hsame : stream' = stream
        · exact .inl ⟨_, List.mem_cons_self, rfl, hsame.symm⟩
        · refine .inr (.inr ⟨rfl, hstream.resolve_left hsame, ?_⟩)
          cases stream' with
          | reply => rfl
          | request => exact absurd (hstream.resolve_left hsame).symm hsame
  next q todo hstage =>
    split_ifs at h with hinvalid
    all_goals cases h
    · refine hf.next (.inl hstage) (List.Subset.refl _) (List.Subset.refl _) fun hq => ?_
      exact absurd hinvalid (Nat.ne_of_lt (hf.required q hq).2)
    · refine hf.next (.inl hstage) (List.Subset.refl _) (List.subset_cons_self _ _) fun _ => ?_
      exact .inl (.inr (.inr (.inl List.mem_cons_self)))
    · exact { hf.of_stage hstage with }
  next q todo hstage =>
    split_ifs at h with hreached
    all_goals cases h
    · refine hf.next (.inr hstage) (List.Subset.refl _) (List.Subset.refl _) fun hq => ?_
      exact .inl (.inl (Nat.le_trans hreached
        ((hprogress q.reader q.stream).sequence (hf.required q hq).1)))
    · refine hf.next (.inr hstage) (List.subset_append_left _ _) (List.Subset.refl _) fun _ => ?_
      exact .inr (List.mem_append_right _ (List.mem_singleton_self q))
  next => cases h

/-- After the capture, a call is what its targets and its evaluation are. -/
theorem FrameOk.goto (hf : FrameOk s f) (passed : List (Target ρ))
    (hcaptured : ∀ r stream, ¬f.stage.Uncaptured r stream) (hreaders : stage.readers = [])
    (hpassed : passed ⊆ f.targets) (hcovered : s.communication = .running → ∀ q ∈ f.required,
      s.Settled f q ∨ q ∈ f.stage.unsettled f.targets →
        s.Settled { f with passed := passed } q ∨ q ∈ stage.unsettled f.targets) :
    FrameOk s { f with passed := passed, stage := stage } := by
  refine ⟨hf.started, fun r hr => ?_, hf.required, hpassed,
    fun hrunning q hq => hcovered hrunning q hq (hf.covered hrunning q hq), fun r hr hskipped stream => ?_⟩
  · change r ∈ stage.readers at hr
    rw [hreaders] at hr
    cases hr
  · exact .inl ((hf.complete r hr hskipped stream).resolve_right (hcaptured r stream))

/-- An evaluation does not leave a target before it is settled. -/
theorem FrameOk.evaluate (hf : FrameOk s f) {held : Bool} {e : Eval ρ}
    (hstage : f.stage = .evaluate held e) (hprogress : ∀ r stream, (s.view r stream).Progress)
    (hok : ∀ r stream, (s.view r stream).Ok) (hamong : e.targets ⊆ f.targets) :
    FrameOk s (s.evaluateStep th f held e) := by
  have hcaptured : ∀ r stream, ¬f.stage.Uncaptured r stream := by
    rw [hstage]
    exact fun _ _ => id
  have hunsettled : f.stage.unsettled f.targets = (Stage.evaluate held e).unsettled f.targets := by
    rw [hstage]
  have hend : ∀ stage, stage = (if held then Stage.unlock else .done) → stage.readers = [] ∧
      stage.unsettled f.targets = [] := by
    rintro _ rfl
    cases held <;> exact ⟨rfl, rfl⟩
  -- The evaluation goes on to the rest, having found the first target settled.
  have hdrop : ∀ {q todo}, f.stage.unsettled f.targets = q :: todo → (q ∈ f.required → s.Settled f q) →
      FrameOk s { f with stage := .evaluate held (.next todo) } := by
    intro q todo hunsettled hq
    refine hf.goto f.passed hcaptured rfl hf.passed fun _ q' hq' hold => ?_
    rcases hold with hsettled | hmem
    · exact .inl hsettled
    · rw [hunsettled] at hmem
      rcases List.mem_cons.1 hmem with rfl | hmem
      · exact .inl (hq hq')
      · exact .inr hmem
  -- The evaluation looks further at the first target.
  have hlook : ∀ {q todo e'}, f.stage.unsettled f.targets = q :: todo →
      (Stage.evaluate held e').unsettled f.targets = q :: todo →
      FrameOk s { f with stage := .evaluate held e' } := by
    intro q todo e' hunsettled hsame
    refine hf.goto f.passed hcaptured rfl hf.passed fun _ q' _ hold => ?_
    rw [hunsettled] at hold
    rw [hsame]
    exact hold
  unfold evaluateStep
  cases e with
  | state =>
    by_cases hrunning : s.communication = .running
    · rw [if_pos hrunning]
      refine hf.goto [] hcaptured rfl (List.nil_subset _) fun _ q _ hold => ?_
      rw [hstage] at hold
      rcases hold with hsettled | hmem
      · exact hsettled.imp (List.Subset.refl _) fun hpassed => .inr (hf.passed hpassed)
      · exact .inr hmem
    · rw [if_neg hrunning]
      exact hf.goto f.passed hcaptured (hend _ rfl).1 hf.passed
        fun hnow => absurd hnow hrunning
  | next todo =>
    cases todo with
    | nil =>
      refine hf.goto f.passed hcaptured (hend _ rfl).1 hf.passed fun _ q _ hold => ?_
      rw [hstage] at hold
      exact hold.imp_right nofun
    | cons q todo =>
      dsimp only
      split_ifs with hdestroyed
      · refine hdrop hunsettled fun _ => .inr (.inl ?_)
        exact (hok q.reader q.stream).ended ((hok q.reader q.stream).destroyed hdestroyed)
      · exact hlook hunsettled rfl
  | observe q todo =>
    dsimp only
    split_ifs with hreached
    · refine hdrop hunsettled fun hq => .inl (Nat.le_trans hreached ?_)
      exact (hprogress q.reader q.stream).sequence (hf.required q hq).1
    · exact hlook hunsettled rfl
  | stopped q todo =>
    dsimp only
    split_ifs with hstopped
    · exact hdrop hunsettled fun _ => .inr (.inl hstopped)
    · exact hlook hunsettled rfl
  | parked q todo =>
    dsimp only
    by_cases hparked : s.parkedFor th q = true
    · rw [if_pos hparked]
      refine hf.goto (q :: f.passed) hcaptured rfl
        (List.cons_subset.2 ⟨hamong List.mem_cons_self, hf.passed⟩) fun _ q' _ hold => ?_
      rw [hunsettled] at hold
      rcases hold with hsettled | hmem
      · refine hsettled.imp (List.Subset.refl _) fun hpassed => .inl (.inr (.inr (.inr ?_)))
        exact List.mem_cons_of_mem _ hpassed
      · rcases List.mem_cons.1 hmem with rfl | hmem
        · exact .inl (.inr (.inr (.inr List.mem_cons_self)))
        · exact .inr hmem
    · rw [if_neg hparked]
      have hback : ∀ stage : Stage ρ, stage.readers = [] → stage.unsettled f.targets = f.targets →
          FrameOk s { f with stage := stage } := by
        intro stage hreaders hall
        refine hf.goto f.passed hcaptured hreaders hf.passed fun _ q' _ hold => ?_
        rw [hunsettled] at hold
        rw [hall]
        exact hold.imp_right fun hmem => hamong hmem
      cases held <;> exact hback _ rfl rfl

theorem FrameOk.passage (hf : FrameOk s f) (h : Passage f.stage stage) :
    FrameOk s { f with stage := stage } := by
  have hkeeps : (∀ r stream, ¬f.stage.Uncaptured r stream) ∧ stage.readers = [] ∧
      stage.unsettled f.targets = f.stage.unsettled f.targets := by
    generalize f.stage = stage₀ at h
    cases h <;> exact ⟨fun _ _ => id, rfl, rfl⟩
  obtain ⟨hcaptured, hreaders, hunsettled⟩ := hkeeps
  refine hf.goto f.passed hcaptured hreaders hf.passed fun _ q _ hold => ?_
  rw [hunsettled]
  exact hold

end

theorem reachable_frames (h : (machine ρ κ).ReachableUnder Orderly s) {th : Thread ρ κ}
    {f : Frame ρ} (hf : f ∈ s.frames th) : FrameOk s f := by
  refine ReachableUnder.invariant (I := fun s => ∀ th, ∀ f ∈ s.frames th, FrameOk s f) ?_ ?_ h th f hf
  · rintro s ⟨-, -, -, -, -, -, -, hframes⟩ th f hf
    rw [hframes] at hf
    cases hf
  · intro s act t hs hframes horderly hstep th f' hf'
    refine FrameOk.later ?_ (later_step hs horderly hstep)
    cases (step_cases hstep).origin hf' with
    | same hf => exact hframes th f' hf
    | fresh hact hf' =>
      subst hact hf'
      refine frameOk_entry horderly.1 fun r hr stream => ?_
      cases stream with
      | request => exact (horderly.2 r hr).1
      | reply => exact (horderly.2 r hr).2
    | capture f hf hcapture => exact (hframes th f hf).capture (reachable_progress hs) hcapture
    | evaluate f held e hf hstage heq =>
      subst heq
      refine (hframes th f hf).evaluate hstage (reachable_progress hs) (reachable_view hs.reachable) ?_
      have hamong := reachable_awaits hs.reachable hf
      rw [hstage] at hamong
      exact hamong
    | passage f stage hf hpassage heq =>
      subst heq
      exact (hframes th f hf).passage hpassage

/-! ### Returns -/

/-- A fence that is about to return while the process is running has looked at both streams of every reader
that was normal, and those that it has not left out, and that have not stopped, are handled. -/
theorem fence_complete (h : (machine ρ κ).ReachableUnder Orderly s) {th : Thread ρ κ} {f : Frame ρ}
    {fs : List (Frame ρ)} (hth : s.frames th = f :: fs) (hdone : f.stage = .done)
    (hrunning : s.communication = .running) :
    (∀ r ∈ f.entered, r ∉ f.skipped → ∀ stream, ∃ q ∈ f.required, q.reader = r ∧ q.stream = stream) ∧
    ∀ q ∈ f.required, q ∉ f.exempted → q ∉ f.passed → (s.stream q.reader q.stream).stopped = false →
      (s.reader q.reader).status ≠ .destroyed → q.target ≤ (s.stream q.reader q.stream).handled := by
  have hmem : f ∈ s.frames th := hth ▸ List.mem_cons_self
  have hf := reachable_frames h hmem
  constructor
  · intro r hr hskipped stream
    have hold := hf.complete r hr hskipped stream
    rw [hdone] at hold
    exact hold.resolve_right id
  · intro q hq hexempted hpassed hstopped _
    have hold := hf.covered hrunning q hq
    rw [hdone] at hold
    rcases hold.resolve_right nofun with hhandled | htrue | hleft | hleft
    · exact hhandled
    · exact absurd (hstopped.symm.trans htrue) Bool.false_ne_true
    · exact absurd hleft hexempted
    · exact absurd hleft hpassed

/-- A reader is constructed, a message is written, and the thread of the reader has not begun when another
thread calls a fence. -/
def beforeTheThread : List (Action Bool Unit) :=
  [.run, .add false, .write false .request, .enter (.control ())] ++ List.replicate 8 (.fence (.control ()))

/-- The fence returns, with the message unhandled. -/
theorem fence_unstarted : ∃ s : State Bool Unit, (machine Bool Unit).Reachable s ∧
    s.communication = .running ∧
    s.frames (.control ()) = [{
      targets := [], stage := .done, entered := [false], skipped := [],
      required := [⟨false, .reply, 0⟩, ⟨false, .request, 1⟩], exempted := [], passed := [] }] ∧
    (s.reader false).status = .present ∧ (s.stream false .request).stopped = false ∧
    (s.stream false .request).handled = 0 :=
  exists_reachable_of_exec (s := idle) beforeTheThread
    ⟨rfl, rfl, rfl, fun _ => rfl, fun _ _ => rfl, fun _ _ => rfl, fun _ => rfl, fun _ => rfl⟩
    (by decide +kernel)

/-- The same with a reader that has begun: the fence waits until the message is handled. -/
def afterTheThread : List (Action Bool Unit) :=
  [.run, .add false] ++ [Stream.request, .reply].flatMap (fun stream =>
      [.serve false stream, .serve false stream, .proceed (.serve false stream)]) ++
    [.write false .request, .enter (.control ())] ++ List.replicate 21 (.fence (.control ())) ++
    [.fetch false .request, .finish false .request, .serve false .request, .proceed (.serve false .request)] ++
    List.replicate 7 (.fence (.control ()))

theorem fence_complete_begun : ∃ s : State Bool Unit, (machine Bool Unit).ReachableUnder Orderly s ∧
    s.communication = .running ∧ s.frames (.control ()) = [{
      targets := [⟨false, .request, 1⟩], stage := .done, entered := [false], skipped := [],
      required := [⟨false, .reply, 0⟩, ⟨false, .request, 1⟩], exempted := [], passed := [] }] ∧
    1 ≤ (s.stream false .request).handled := by
  obtain ⟨s, hs, hrunning, hframes, hstopped, hstatus⟩ : ∃ s : State Bool Unit,
      (machine Bool Unit).ReachableUnder Orderly s ∧ s.communication = .running ∧
      s.frames (.control ()) = [{
        targets := [⟨false, .request, 1⟩], stage := .done, entered := [false], skipped := [],
        required := [⟨false, .reply, 0⟩, ⟨false, .request, 1⟩], exempted := [], passed := [] }] ∧
      (s.stream false .request).stopped = false ∧ (s.reader false).status ≠ .destroyed :=
    exists_reachableUnder_of_exec (s := idle) afterTheThread
      ⟨rfl, rfl, rfl, fun _ => rfl, fun _ _ => rfl, fun _ _ => rfl, fun _ => rfl, fun _ => rfl⟩
      (by decide +kernel)
  exact ⟨s, hs, hrunning, hframes, (fence_complete hs hframes rfl hrunning).2 ⟨false, .request, 1⟩
    (by decide) (by decide) (by decide) hstopped hstatus⟩

end Sintra.Messaging.Fence
