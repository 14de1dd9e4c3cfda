import Sintra.Messaging.DeliveryFenceMoves

/-!
# Streams under delivery fences

What a step can do to one stream: to its reader, its progress, and the phase of the thread that serves it.
Fences only look at streams, so that their own steps change none (`fenceStep_keeps`).
-/

set_option linter.unusedSectionVars false

namespace Sintra.Messaging.Fence

open Function Updates State Machine

variable {ρ κ : Type*} [DecidableEq ρ] [DecidableEq κ] {s t : State ρ κ}

/-- What the thread of a stream is about. -/
inductive Phase
  | unstarted
  | starting
  | loop
  | handling
  | publish
  | exit
  | exitStored
  | ended
  deriving DecidableEq

def Place.phase : Place → Phase
  | .loop => .loop
  | .user => .handling
  | .ended => .ended

def Pc.phase : Pc ρ → Phase
  | .at place => place.phase
  | .unstarted => .unstarted
  | .starting => .starting
  | .publish => .publish
  | .notify next => next.phase
  | .exit => .exit
  | .exitStored => .exitStored
  | .stopRequests _ | .stopReplies _ => .handling

/-- A stream, and what there is to know of its reader and its thread. -/
structure View where
  status : Status
  stopRequested : Bool
  x : StreamState
  phase : Phase

def State.view (s : State ρ κ) (r : ρ) (stream : Stream) : View :=
  ⟨(s.reader r).status, (s.reader r).stopRequested, s.stream r stream, (s.pc (.serve r stream)).phase⟩

/-- What a step does to a stream. -/
inductive Turn (act : Action ρ κ) (r : ρ) (stream : Stream) (v v' : View) : Prop
  | keep : v' = v → Turn act r stream v v'
  | write : v.x.leading + 1 < invalidSequence →
      v' = { v with x := { v.x with leading := v.x.leading + 1 } } → Turn act r stream v v'
  | evict : act = .evict r stream → v' = { v with x := { v.x with reading := v.x.leading } } →
      Turn act r stream v v'
  | add : v.status = .absent →
      v' = { v with
        status := .present, x := { v.x with reading := v.x.leading, handled := v.x.leading } } →
      Turn act r stream v v'
  | remove : v.status = .present → v' = { v with status := .removed } → Turn act r stream v v'
  | destroy : v.phase = .ended → v' = { v with status := .destroyed } → Turn act r stream v v'
  | start : v.status ≠ .absent → v.phase = .unstarted →
      v' = { v with phase := .starting, x := { v.x with stopped := false } } → Turn act r stream v v'
  | publish : v.phase = .starting ∨ v.phase = .publish →
      v' = { v with phase := .loop, x := { v.x with sequence := v.x.reading, published := true } } →
      Turn act r stream v v'
  | fetch : v.phase = .loop → v.x.reading < v.x.leading →
      v' = { v with phase := .handling, x := { v.x with reading := v.x.reading + 1 } } →
      Turn act r stream v v'
  | finish : v.phase = .handling →
      v' = { v with phase := .publish, x := { v.x with handled := v.x.reading } } → Turn act r stream v v'
  | quit : v.phase = .loop → v.stopRequested = true → v' = { v with phase := .exit } →
      Turn act r stream v v'
  | exitStore : v.phase = .exit →
      v' = { v with phase := .exitStored, x := { v.x with sequence := v.x.reading } } →
      Turn act r stream v v'
  | exitStop : v.phase = .exitStored →
      v' = { v with phase := .ended, x := { v.x with stopped := true } } → Turn act r stream v v'
  | request : v.status ≠ .absent → v' = { v with stopRequested := true } → Turn act r stream v v'
  | stop : v.stopRequested = true → v' = { v with x := { v.x with stopped := true } } →
      Turn act r stream v v'

/-! ### The thread that stops a reader -/

/-- A thread in `stop_nowait` has told the reader. -/
def State.StopsRequested (s : State ρ κ) : Prop :=
  ∀ th r, s.pc th = .stopRequests r ∨ s.pc th = .stopReplies r → (s.reader r).stopRequested = true

theorem State.StopsRequested.of_same (hs : s.StopsRequested) (hpc : t.pc = s.pc)
    (hreader : ∀ r, (t.reader r).stopRequested = (s.reader r).stopRequested) : t.StopsRequested := by
  intro th r hth
  rw [hpc] at hth
  rw [hreader]
  exact hs th r hth

variable {act : Action ρ κ} {th : Thread ρ κ} {r r₀ : ρ} {stream : Stream}

theorem State.StopsRequested.of_update (hs : s.StopsRequested) {pc : Pc ρ}
    (hpc : t.pc = update s.pc th pc)
    (hreader : ∀ r, (s.reader r).stopRequested = true → (t.reader r).stopRequested = true)
    (hstop : ∀ r, pc = .stopRequests r ∨ pc = .stopReplies r → (t.reader r).stopRequested = true) :
    t.StopsRequested := by
  intro th' r hth'
  rw [hpc] at hth'
  obtain rfl | hne := eq_or_ne th' th
  · rw [update_self] at hth'
    exact hstop r hth'
  · rw [update_of_ne hne] at hth'
    exact hreader r (hs th' r hth')

theorem stopRequested_setReader {x : Reader}
    (hx : x.stopRequested = (s.reader r).stopRequested) (r' : ρ) :
    ((s.setReader r x).reader r').stopRequested = (s.reader r').stopRequested :=
  proj_update Reader.stopRequested hx r'

/-- A fence changes no stream. -/
theorem fenceStep_keeps (h : s.fenceStep th = some t) :
    t.communication = s.communication ∧ t.stream = s.stream ∧ t.pc = s.pc ∧
      (∀ r, (t.reader r).status = (s.reader r).status) ∧
      ∀ r, (t.reader r).stopRequested = (s.reader r).stopRequested := by
  have hadd : ∀ change : ℕ → ℕ, (∀ r, ((s.addParked th change).reader r).status = (s.reader r).status) ∧
      ∀ r, ((s.addParked th change).reader r).stopRequested = (s.reader r).stopRequested := by
    intro change
    unfold addParked
    split
    next r => exact ⟨proj_update Reader.status rfl, proj_update Reader.stopRequested rfl⟩
    next => exact ⟨fun _ => rfl, fun _ => rfl⟩
  unfold fenceStep at h
  split at h
  next => cases h
  next f fs hframes =>
    split at h
    case h_1 | h_5 | h_8 | h_10 =>
      cases h
      exact ⟨rfl, rfl, rfl, fun _ => rfl, fun _ => rfl⟩
    case h_3 | h_4 | h_7 =>
      obtain ⟨-, rfl⟩ := of_guard h
      exact ⟨rfl, rfl, rfl, fun _ => rfl, fun _ => rfl⟩
    next =>
      split_ifs at h
      all_goals cases h
      · rw [s.addParked_eq]
        exact ⟨rfl, rfl, rfl, hadd _⟩
      · exact ⟨rfl, rfl, rfl, fun _ => rfl, fun _ => rfl⟩
    next => cases h
    next =>
      cases h
      rw [s.addParked_eq]
      exact ⟨rfl, rfl, rfl, hadd _⟩
    next =>
      obtain ⟨f', -, rfl⟩ := Option.map_eq_some_iff.1 h
      exact ⟨rfl, rfl, rfl, fun _ => rfl, fun _ => rfl⟩

theorem spurious_eq (h : s.step (.spurious th) = some t) : ∃ fs, t = s.setFrames th fs := by
  simp only [State.step] at h
  split at h
  next => cases h
  next f fs _ =>
    split_ifs at h
    exact ⟨_, (Option.some.inj h).symm⟩

/-! ### Views -/

theorem view_congr (hstatus : (t.reader r).status = (s.reader r).status)
    (hrequested : (t.reader r).stopRequested = (s.reader r).stopRequested)
    (hx : t.stream r stream = s.stream r stream)
    (hphase : (t.pc (.serve r stream)).phase = (s.pc (.serve r stream)).phase) :
    t.view r stream = s.view r stream := by
  unfold view
  rw [hstatus, hrequested, hx, hphase]

/-- A thread goes on within its phase. -/
theorem phase_update (pcs : Thread ρ κ → Pc ρ) (pc : Pc ρ) (h : pc.phase = (pcs th).phase)
    (th' : Thread ρ κ) : (update pcs th pc th').phase = (pcs th').phase :=
  proj_update Pc.phase h th'

variable {stream₀ : Stream}

/-- A step that is about one stream is a turn of that stream, and of no other. -/
theorem turn_stream {x : StreamState} {p : Phase}
    (hreader : t.reader = s.reader) (hstream : t.stream = (s.setStream r₀ stream₀ x).stream)
    (hself : (t.pc (.serve r₀ stream₀)).phase = p)
    (hother : ∀ th, th ≠ .serve r₀ stream₀ → (t.pc th).phase = (s.pc th).phase)
    (h : Turn act r₀ stream₀ (s.view r₀ stream₀) { s.view r₀ stream₀ with x := x, phase := p }) :
    Turn act r stream (s.view r stream) (t.view r stream) := by
  have hx : t.stream r₀ stream₀ = x := by
    rw [hstream]
    show update s.stream r₀ _ r₀ stream₀ = x
    rw [update_self, update_self]
  by_cases hsame : r = r₀ ∧ stream = stream₀
  · obtain ⟨rfl, rfl⟩ := hsame
    have hview : t.view r stream = { s.view r stream with x := x, phase := p } := by
      unfold view
      rw [hreader, hx, hself]
    rw [hview]
    exact h
  · refine .keep (view_congr (by rw [hreader]) (by rw [hreader]) ?_ (hother _ ?_))
    · rw [hstream]
      show update s.stream r₀ _ r stream = _
      obtain rfl | hr := eq_or_ne r r₀
      · rw [update_self, update_of_ne fun heq => hsame ⟨rfl, heq⟩]
      · rw [update_of_ne hr]
    · intro heq
      injection heq with hr hstream
      exact hsame ⟨hr, hstream⟩

/-- The thread of a stream goes on. -/
theorem turn_serve {x : StreamState} {pc : Pc ρ}
    (h : Turn act r₀ stream₀ (s.view r₀ stream₀) { s.view r₀ stream₀ with x := x, phase := pc.phase }) :
    Turn act r stream (s.view r stream)
      (((s.setStream r₀ stream₀ x).setPc (.serve r₀ stream₀) pc).view r stream) := by
  refine turn_stream rfl rfl ?_ (fun th hne => ?_) h
  all_goals show (update s.pc _ _ _).phase = _
  · rw [update_self]
  · rw [update_of_ne hne]

/-- A reader is changed, for both of its streams. -/
theorem turn_reader {x : Reader} (hreader : t.reader = update s.reader r₀ x)
    (hstream : t.stream = s.stream) (hphase : ∀ th, (t.pc th).phase = (s.pc th).phase)
    (h : ∀ stream, Turn act r₀ stream (s.view r₀ stream)
      { s.view r₀ stream with status := x.status, stopRequested := x.stopRequested }) :
    Turn act r stream (s.view r stream) (t.view r stream) := by
  obtain rfl | hr := eq_or_ne r r₀
  · have hview : t.view r stream =
        { s.view r stream with status := x.status, stopRequested := x.stopRequested } := by
      unfold view
      rw [hreader, update_self, hstream, hphase]
    rw [hview]
    exact h stream
  · refine .keep (view_congr ?_ ?_ (by rw [hstream]) (hphase _))
    all_goals rw [hreader, update_of_ne hr]

theorem turn_publish
    (hphase : (s.pc (.serve r₀ stream₀)).phase = .starting ∨ (s.pc (.serve r₀ stream₀)).phase = .publish) :
    Turn act r stream (s.view r stream) ((s.publish r₀ stream₀).view r stream) := by
  refine turn_serve (.publish hphase ?_)
  split_ifs <;> rfl

theorem serveStep_turn (h : s.serveStep r₀ stream₀ = some t) :
    Turn act r stream (s.view r stream) (t.view r stream) := by
  have hphase : ∀ {pc : Pc ρ}, s.pc (.serve r₀ stream₀) = pc → (s.view r₀ stream₀).phase = pc.phase :=
    fun hpc => congrArg Pc.phase hpc
  simp only [serveStep] at h
  split at h
  next hpc =>
    obtain ⟨hg, rfl⟩ := of_guard h
    refine turn_serve (.start ?_ (hphase hpc) rfl)
    rcases hg with hstatus | hstatus <;> exact fun habsent => by cases habsent.symm.trans hstatus
  next hpc =>
    cases h
    exact turn_publish (.inl (hphase hpc))
  next hpc =>
    cases h
    exact turn_publish (.inr (hphase hpc))
  next hpc =>
    cases h
    exact turn_serve (.exitStore (hphase hpc) rfl)
  next hpc =>
    cases h
    exact turn_serve (.exitStop (hphase hpc) rfl)
  next => cases h

theorem proceed_turn (hs : s.StopsRequested) (h : s.proceed th = some t) :
    Turn act r stream (s.view r stream) (t.view r stream) := by
  unfold proceed at h
  split at h
  next r₀ hpc =>
    cases h
    have hphase : ∀ th', (update s.pc th (.stopReplies r₀) th').phase = (s.pc th').phase :=
      phase_update s.pc _ (by rw [hpc]; rfl)
    exact turn_stream rfl rfl (hphase _) (fun th' _ => hphase th') (.stop (hs th r₀ (.inl hpc)) rfl)
  next r₀ hpc =>
    cases h
    have hphase : ∀ th', (update s.pc th (.notify .user) th').phase = (s.pc th').phase :=
      phase_update s.pc _ (by rw [hpc]; rfl)
    exact turn_stream rfl rfl (hphase _) (fun th' _ => hphase th') (.stop (hs th r₀ (.inr hpc)) rfl)
  next next hpc =>
    obtain ⟨-, rfl⟩ := of_guard h
    exact .keep (view_congr rfl rfl rfl (phase_update s.pc (.at next) (congrArg Pc.phase hpc).symm _))
  next => cases h

theorem phase_of_inUserCode (h : s.inUserCode th = true) : s.pc th = .at .user := by
  rw [inUserCode, Bool.and_eq_true, decide_eq_true_eq] at h
  exact h.1

/-- Every step is a `Turn` of every stream. -/
theorem step_turn (hs : s.StopsRequested) (h : s.step act = some t) (r : ρ) (stream : Stream) :
    Turn act r stream (s.view r stream) (t.view r stream) := by
  cases act with
  | run | enter th =>
    obtain ⟨-, rfl⟩ := of_guard h
    exact .keep rfl
  | write r₀ stream₀ =>
    obtain ⟨hg, rfl⟩ := of_guard h
    exact turn_stream rfl rfl rfl (fun _ _ => rfl) (.write hg rfl)
  | evict r₀ stream₀ =>
    obtain ⟨-, rfl⟩ := of_guard h
    exact turn_stream rfl rfl rfl (fun _ _ => rfl) (.evict rfl rfl)
  | add r₀ =>
    obtain ⟨habsent, rfl⟩ := of_guard h
    obtain rfl | hr := eq_or_ne r r₀
    · refine .add habsent ?_
      unfold view
      dsimp only
      rw [update_self, update_self]
    · refine .keep (view_congr ?_ ?_ ?_ rfl)
      all_goals
        dsimp only
        rw [update_of_ne hr]
  | remove r₀ =>
    obtain ⟨hg, rfl⟩ := of_guard h
    exact turn_reader rfl rfl (fun _ => rfl) (fun _ => .remove hg rfl)
  | destroy r₀ =>
    obtain ⟨⟨-, hrequest, hreply⟩, rfl⟩ := of_guard h
    refine turn_reader rfl rfl (fun _ => rfl) (fun stream' => .destroy ?_ rfl)
    show (s.pc _).phase = _
    cases stream' with
    | request => rw [hrequest]; rfl
    | reply => rw [hreply]; rfl
  | pauseReader r₀ =>
    obtain ⟨-, rfl⟩ := of_guard h
    exact turn_reader rfl rfl (fun _ => rfl) (fun _ => .keep rfl)
  | serve r₀ stream₀ => exact serveStep_turn h
  | fetch r₀ stream₀ =>
    obtain ⟨⟨hpc, hlt⟩, rfl⟩ := of_guard h
    exact turn_serve (.fetch (congrArg Pc.phase hpc) hlt rfl)
  | quit r₀ stream₀ =>
    obtain ⟨⟨hpc, hrequested⟩, rfl⟩ := of_guard h
    refine turn_stream (x := s.stream r₀ stream₀) rfl ?_ ?_ (fun th hne => ?_)
      (.quit (congrArg Pc.phase hpc) hrequested rfl)
    · show s.stream = update s.stream r₀ (update (s.stream r₀) stream₀ _)
      rw [update_eq_self, update_eq_self]
    all_goals show (update s.pc _ _ _).phase = _
    · rw [update_self]
      rfl
    · rw [update_of_ne hne]
  | finish r₀ stream₀ =>
    obtain ⟨hg, rfl⟩ := of_guard h
    exact turn_serve (.finish (congrArg Pc.phase (phase_of_inUserCode hg)) rfl)
  | stopNowait th r₀ =>
    obtain ⟨⟨huser, hstatus⟩, rfl⟩ := of_guard h
    refine turn_reader rfl rfl (phase_update s.pc _ (congrArg Pc.phase (phase_of_inUserCode huser)).symm)
      (fun _ => .request ?_ rfl)
    rcases hstatus with hstatus | hstatus <;> exact fun habsent => nomatch habsent.symm.trans hstatus
  | setState th c =>
    obtain ⟨hg, rfl⟩ := of_guard h
    exact .keep (view_congr rfl rfl rfl
      (phase_update s.pc (.notify .user) (congrArg Pc.phase (phase_of_inUserCode hg.1)).symm _))
  | proceed th => exact proceed_turn hs h
  | fence th =>
    obtain ⟨-, hstream, hpc, hstatus, hrequested⟩ := fenceStep_keeps h
    exact .keep (view_congr (hstatus r) (hrequested r) (by rw [hstream]) (by rw [hpc]))
  | spurious th =>
    obtain ⟨fs, rfl⟩ := spurious_eq h
    exact .keep rfl

/-! ### The life of a stream -/

theorem stops_step (hs : s.StopsRequested) (h : s.step act = some t) : t.StopsRequested := by
  -- No step but `stop_nowait` puts a thread there, and no step takes the request back.
  have hpublish : ∀ r stream, (s.publish r stream).StopsRequested := by
    intro r stream
    refine hs.of_update rfl (fun _ => id) fun r' hr' => ?_
    split_ifs at hr' <;> rcases hr' with hr' | hr' <;> cases hr'
  cases act with
  | run | enter th | write r stream | evict r stream =>
    obtain ⟨-, rfl⟩ := of_guard h
    exact hs
  | add r | remove r | destroy r | pauseReader r =>
    obtain ⟨-, rfl⟩ := of_guard h
    exact hs.of_same rfl (stopRequested_setReader rfl)
  | serve r stream =>
    simp only [State.step, State.serveStep] at h
    split at h
    case h_2 | h_3 =>
      cases h
      exact hpublish r stream
    case h_4 | h_5 =>
      cases h
      exact hs.of_update rfl (fun _ => id) fun _ hr => by simp at hr
    next =>
      obtain ⟨-, rfl⟩ := of_guard h
      exact hs.of_update rfl (fun _ => id) fun _ hr => by simp at hr
    next => cases h
  | fetch r stream | quit r stream | finish r stream | setState th c =>
    obtain ⟨-, rfl⟩ := of_guard h
    exact hs.of_update rfl (fun _ => id) fun _ hr => by simp at hr
  | stopNowait th r =>
    obtain ⟨-, rfl⟩ := of_guard h
    refine hs.of_update rfl (fun r' hr' => ?_) fun r' hr' => ?_
    · show (update s.reader r _ r').stopRequested = true
      obtain rfl | hne := eq_or_ne r' r
      · rw [update_self]
      · rw [update_of_ne hne]
        exact hr'
    · rcases hr' with hr' | hr'
      · injection hr' with hr'
        subst hr'
        show (update s.reader r _ r).stopRequested = true
        rw [update_self]
      · cases hr'
  | proceed th =>
    simp only [State.step, State.proceed] at h
    split at h
    next r hpc =>
      cases h
      refine hs.of_update rfl (fun _ => id) fun r' hr' => ?_
      rcases hr' with hr' | hr'
      · cases hr'
      · injection hr' with hr'
        exact hr' ▸ hs th r (.inl hpc)
    next =>
      cases h
      exact hs.of_update rfl (fun _ => id) fun _ hr => by simp at hr
    next =>
      obtain ⟨-, rfl⟩ := of_guard h
      exact hs.of_update rfl (fun _ => id) fun _ hr => by simp at hr
    next => cases h
  | fence th =>
    obtain ⟨-, -, hpc, -, hrequested⟩ := fenceStep_keeps h
    exact hs.of_same hpc hrequested
  | spurious th =>
    obtain ⟨fs, rfl⟩ := spurious_eq h
    exact hs

theorem reachable_stops (h : (machine ρ κ).Reachable s) : s.StopsRequested := by
  refine h.invariant (I := StopsRequested) ?_ fun _ _ _ hs hstep => stops_step hs hstep
  rintro s ⟨-, -, -, -, -, hserve, hcontrol, -⟩ th r hth
  cases th with
  | serve r' stream =>
    rw [hserve] at hth
    rcases hth with hth | hth <;> cases hth
  | control k =>
    rw [hcontrol] at hth
    rcases hth with hth | hth <;> cases hth

/-- What holds of a stream in every run. -/
structure View.Ok (v : View) : Prop where
  ended : v.phase = .ended → v.x.stopped = true
  destroyed : v.status = .destroyed → v.phase = .ended
  stopped : v.x.stopped = true → v.stopRequested = true
  leaving : v.phase = .exit ∨ v.phase = .exitStored → v.stopRequested = true

theorem View.Ok.turn {v v' : View} (hv : v.Ok) (h : Turn act r stream v v') : v'.Ok := by
  cases h with
  | keep h => exact h ▸ hv
  | write _ h | evict _ h => exact h ▸ { hv with }
  | add _ h | remove _ h => exact h ▸ { hv with destroyed := nofun }
  | destroy hended h => exact h ▸ { hv with destroyed := fun _ => hended }
  | start _ hphase h =>
    refine h ▸ ⟨nofun, fun hstatus => ?_, nofun, nofun⟩
    cases hphase.symm.trans (hv.destroyed hstatus)
  | publish hphase h =>
    refine h ▸ ⟨nofun, fun hstatus => ?_, hv.stopped, nofun⟩
    have hended := hv.destroyed hstatus
    rcases hphase with hphase | hphase <;> cases hphase.symm.trans hended
  | fetch hphase _ h | finish hphase h =>
    refine h ▸ ⟨nofun, fun hstatus => ?_, hv.stopped, nofun⟩
    cases hphase.symm.trans (hv.destroyed hstatus)
  | quit hphase hrequested h =>
    refine h ▸ ⟨nofun, fun hstatus => ?_, hv.stopped, fun _ => hrequested⟩
    cases hphase.symm.trans (hv.destroyed hstatus)
  | exitStore hphase h =>
    refine h ▸ ⟨nofun, fun hstatus => ?_, hv.stopped, fun _ => hv.leaving (.inl hphase)⟩
    cases hphase.symm.trans (hv.destroyed hstatus)
  | exitStop hphase h =>
    exact h ▸ ⟨fun _ => rfl, fun _ => rfl, fun _ => hv.leaving (.inr hphase), nofun⟩
  | request _ h => exact h ▸ ⟨hv.ended, hv.destroyed, fun _ => rfl, fun _ => rfl⟩
  | stop hrequested h => exact h ▸ ⟨fun _ => rfl, hv.destroyed, fun _ => hrequested, hv.leaving⟩

/-- A stream whose thread has ended has its `stopped` flag set, and only a stream that has been told
to stop has it. -/
theorem reachable_view (h : (machine ρ κ).Reachable s) (r : ρ) (stream : Stream) :
    (s.view r stream).Ok := by
  refine ReachableUnder.invariant (I := fun s => ∀ r stream, (s.view r stream).Ok) ?_
    (fun s a t hs hI _ hstep r stream => (hI r stream).turn (step_turn (reachable_stops hs) hstep r stream)) h r stream
  rintro s ⟨-, -, -, hreader, hstream, hserve, -, -⟩ r stream
  unfold view
  rw [hreader, hstream, hserve]
  exact ⟨nofun, nofun, nofun, nofun⟩

/-- Only the thread of a stream leaves the code of the user for good. -/
theorem reachable_control (h : (machine ρ κ).Reachable s) (k : κ) :
    (s.pc (.control k)).phase = .handling := by
  refine h.invariant (I := fun s => ∀ k, (s.pc (.control k)).phase = .handling) ?_ ?_ k
  · rintro s ⟨-, -, -, -, -, -, hcontrol, -⟩ k
    rw [hcontrol]
    rfl
  · intro s act t hs hstep k
    change s.step act = some t at hstep
    -- The threads of streams are no others, and the others stay in their phase.
    have hserve : ∀ {t : State ρ κ} {r stream pc}, t.pc = update s.pc (.serve r stream) pc →
        (t.pc (.control k)).phase = .handling := by
      intro t r stream pc hpc
      have hne : (Thread.control k : Thread ρ κ) ≠ .serve r stream := nofun
      rw [hpc, update_of_ne hne]
      exact hs k
    have hwithin : ∀ {t : State ρ κ} {th pc pc'}, t.pc = update s.pc th pc' → s.pc th = pc →
        pc'.phase = pc.phase → (t.pc (.control k)).phase = .handling := by
      rintro t th _ pc' hpc rfl hphase
      rw [hpc, phase_update s.pc pc' hphase]
      exact hs k
    cases act with
    | run | remove r | destroy r | pauseReader r | enter th | write r stream | evict r stream | add r =>
      obtain ⟨-, rfl⟩ := of_guard hstep
      exact hs k
    | serve r stream =>
      simp only [State.step, State.serveStep] at hstep
      split at hstep
      case h_2 | h_3 | h_4 | h_5 =>
        cases hstep
        exact hserve rfl
      next =>
        obtain ⟨-, rfl⟩ := of_guard hstep
        exact hserve rfl
      next => cases hstep
    | fetch r stream | quit r stream | finish r stream =>
      obtain ⟨-, rfl⟩ := of_guard hstep
      exact hserve rfl
    | stopNowait th r | setState th c =>
      obtain ⟨hstepg, rfl⟩ := of_guard hstep
      exact hwithin rfl (phase_of_inUserCode hstepg.1) rfl
    | proceed th =>
      simp only [State.step, State.proceed] at hstep
      split at hstep
      case h_1 r hpc | h_2 r hpc =>
        cases hstep
        exact hwithin rfl hpc rfl
      next next hpc =>
        obtain ⟨-, rfl⟩ := of_guard hstep
        exact hwithin rfl hpc rfl
      next => cases hstep
    | fence th =>
      obtain ⟨-, -, hpc, -⟩ := fenceStep_keeps hstep
      rw [hpc]
      exact hs k
    | spurious th =>
      obtain ⟨fs, rfl⟩ := spurious_eq hstep
      exact hs k

end Sintra.Messaging.Fence
