import Sintra.Lib.Updates
import Sintra.Messaging.RpcCallOutcome

/-!
# The loss of a route

All transported calls of a process, its `stop` and the once-only `unblock_rpc_once` of its readers. Each
call goes through the life of `Sintra.Messaging.Rpc`, with its own view of the map of return handlers.
What the calls share is the set of outstanding calls under its mutex, and the flag `m_must_stop`, which
is stored without the mutex: a registration loads the flag and inserts the call under the mutex in two
steps, and a reader stores the flag, takes the mutex and visits the calls of the set one by one.

Two ghosts record, for each reader, the calls that were pending for its process when it took the mutex,
and the calls it has cancelled.
-/

set_option linter.unusedSectionVars false

namespace Sintra.Messaging.Unblock

open Function Updates Machine Option

/-- What does not change in a process. -/
structure Config (ι κ : Type*) where
  /-- `s_coord` is there. -/
  coordinator : Bool
  /-- `process_of(s_coord_id)` -/
  coordinatorProcess : ℕ
  /-- `process_of(remote_instance)` of a call. -/
  remoteProcess : ι → ℕ
  /-- `m_process_instance_id` of a reader. -/
  process : κ → ℕ
  process_ne : ∀ k, process k ≠ invalidFunctionId

/-- The reader is the only route of a leaf. -/
def Config.onlyRoute {ι κ : Type*} (cfg : Config ι κ) (k : κ) : Bool :=
  !cfg.coordinator && cfg.process k = cfg.coordinatorProcess

/-- Where a reader is in `unblock_rpc_once`. -/
inductive Phase
  | idle
  /-- `call_once` is won. -/
  | claimed
  /-- `m_must_stop` is stored, if it has to be. -/
  | stored
  | scanning
  | done
  deriving DecidableEq

/-- Who holds `s_outstanding_rpcs_mutex`. -/
inductive Lock (ι κ : Type*)
  | free
  /-- A call that has loaded `m_must_stop`; `refused` if it throws. -/
  | registering (i : ι) (refused : Bool)
  /-- `unblock_rpc`, called by a reader or by somebody else, with the calls it has not visited. -/
  | scanning (k : Option κ) (process : ℕ) (todo : List ι)

structure State (ι κ : Type*) where
  /-- `m_must_stop` -/
  mustStop : Bool
  lock : Lock ι κ
  /-- `s_outstanding_rpcs` -/
  outstanding : List ι
  calls : ι → Rpc.State
  phase : κ → Phase
  /-- The calls that were pending for the process of the reader when it took the mutex. -/
  pendingAt : κ → List ι
  /-- The calls that the reader has cancelled. -/
  cancelledBy : κ → List ι

inductive Action (ι κ : Type*)
  /-- A call takes the mutex and loads the flag. -/
  | register (i : ι)
  /-- It is inserted, or throws. -/
  | insert (i : ι)
  /-- Any other step of a call. -/
  | call (i : ι) (act : Rpc.Action)
  /-- `Managed_process::stop` -/
  | stop
  | claim (k : κ)
  | store (k : κ)
  | scan (k : κ)
  /-- `unblock_rpc` is called by somebody else. -/
  | unblockRpc (process : ℕ)
  | visit (i : ι)
  /-- The scan is over. -/
  | unlock

section

variable {ι κ : Type*} [DecidableEq ι] [DecidableEq κ]

/-- The call is in the outstanding set and waits. -/
def Pending (c : Rpc.State) : Prop := c.outstanding = true ∧ c.keepWaiting = true

instance (c : Rpc.State) : Decidable (Pending c) := inferInstanceAs (Decidable (_ ∧ _))

/-- The step takes `s_outstanding_rpcs_mutex`. -/
def locks (c : Rpc.State) : Rpc.Action → Bool
  | .unwind => true
  | .advance =>
    match c.pc with
    | .erasing _ _ => true
    | _ => false
  | _ => false

/-- What `unblock_rpc_once` passes to `unblock_rpc`. -/
def Config.scanned (cfg : Config ι κ) (k : κ) : ℕ :=
  if cfg.onlyRoute k then invalidFunctionId else cfg.process k

namespace State

def setCall (s : State ι κ) (i : ι) (c : Rpc.State) : State ι κ :=
  { s with calls := update s.calls i c }

def setPhase (s : State ι κ) (k : κ) (p : Phase) : State ι κ :=
  { s with phase := update s.phase k p }

/-- The calls of the set that are pending for a process. -/
def pendingFor (cfg : Config ι κ) (s : State ι κ) (process : ℕ) : List ι :=
  s.outstanding.filter fun i => (s.calls i).keepWaiting &&
    (process = invalidFunctionId || cfg.remoteProcess i = process)

/-- A call goes on. Only the registration and the scan, which have steps of their own, and the removal
of the call touch the outstanding set. -/
def callStep (cfg : Config ι κ) (s : State ι κ) (i : ι) (act : Rpc.Action) : Option (State ι κ) :=
  match act with
  | .insert _ => none
  | .unblockRpc _ => none
  | act =>
    match locks (s.calls i) act, s.lock with
    | false, _ => (Rpc.step (cfg.remoteProcess i) (s.calls i) act).map (s.setCall i)
    | true, .free =>
      (Rpc.step (cfg.remoteProcess i) (s.calls i) act).map fun c =>
        { s.setCall i c with outstanding := s.outstanding.filter (· ≠ i) }
    | true, _ => none

/-- Source: `managed_process_impl.h`, `unblock_rpc`, one call -/
def visit (cfg : Config ι κ) (s : State ι κ) (i : ι) : Option (State ι κ) :=
  match s.lock with
  | .scanning k process todo =>
    if i ∈ todo then
      (Rpc.step (cfg.remoteProcess i) (s.calls i) (.unblockRpc process)).map fun c =>
        { s.setCall i c with
          lock := .scanning k process (todo.filter (· ≠ i))
          cancelledBy := fun k' =>
            if k = some k' ∧ c.keepWaiting ≠ (s.calls i).keepWaiting then i :: s.cancelledBy k'
            else s.cancelledBy k' }
    else none
  | _ => none

/-- Source: `transceiver_impl.h`, `rpc_async_impl`; `managed_process_impl.h`, `stop`, `unblock_rpc`;
`process_message_reader_impl.h`, `unblock_rpc_once` -/
def step (cfg : Config ι κ) (s : State ι κ) : Action ι κ → Option (State ι κ)
  | .register i =>
    match s.lock with
    | .free =>
      if (s.calls i).pc = .calling then
        some { s with lock := .registering i (!cfg.coordinator && s.mustStop) }
      else none
    | _ => none
  | .insert i =>
    match s.lock with
    | .registering j refused =>
      if i = j then
        (Rpc.step (cfg.remoteProcess i) (s.calls i) (.insert refused)).map fun c =>
          { s.setCall i c with
            lock := .free
            outstanding := if refused then s.outstanding else i :: s.outstanding }
      else none
    | _ => none
  | .call i act => s.callStep cfg i act
  | .stop => some { s with mustStop := true }
  | .claim k => if s.phase k = .idle then some (s.setPhase k .claimed) else none
  | .store k =>
    if s.phase k = .claimed then
      some { s.setPhase k .stored with mustStop := s.mustStop || cfg.onlyRoute k }
    else none
  | .scan k =>
    match s.lock with
    | .free =>
      if s.phase k = .stored then
        some { s.setPhase k .scanning with
          lock := .scanning (some k) (cfg.scanned k) s.outstanding
          pendingAt := update s.pendingAt k (s.pendingFor cfg (cfg.scanned k)) }
      else none
    | _ => none
  | .unblockRpc process =>
    match s.lock with
    | .free => some { s with lock := .scanning none process s.outstanding }
    | _ => none
  | .visit i => s.visit cfg i
  | .unlock =>
    match s.lock with
    | .scanning none _ [] => some { s with lock := .free }
    | .scanning (some k) _ [] => some { s.setPhase k .done with lock := .free }
    | _ => none

end State

/-- Initially there is no call, and no reader has stopped. -/
def machine (cfg : Config ι κ) : Machine (State ι κ) (Action ι κ) where
  init s :=
    s.mustStop = false ∧ s.lock = .free ∧ s.outstanding = [] ∧
      (∀ i, (Rpc.machine (cfg.remoteProcess i)).init (s.calls i)) ∧
      (∀ k, s.phase k = .idle ∧ s.pendingAt k = [] ∧ s.cancelledBy k = [])
  step := State.step cfg

end

/-! ### Steps of a call -/

section

variable {c d : Rpc.State} {remoteProcess : ℕ} {act : Rpc.Action}

/-- What a step of the call leaves alone that is no part of a scan. -/
structure Aside (c d : Rpc.State) (removed : Bool) : Prop where
  cancelled : d.cancelled = c.cancelled
  outstanding : d.outstanding = (c.outstanding && !removed)

theorem Aside.kept (hcancelled : d.cancelled = c.cancelled)
    (houtstanding : d.outstanding = c.outstanding) : Aside c d false :=
  ⟨hcancelled, houtstanding.trans (Bool.and_true _).symm⟩

theorem aside_advance (h : c.advance = some d) : Aside c d (locks c .advance) := by
  unfold Rpc.State.advance at h
  unfold locks
  cases hpc : c.pc with
  | woken =>
    simp only [hpc] at h
    cases h
    exact .kept rfl rfl
  | reading job =>
    have hd : ∃ r pc, d = c.report r ∨ d = c.goto pc := by
      cases job <;> simp only [hpc] at h <;> split_ifs at h <;> obtain rfl := some.inj h <;>
        first
          | exact ⟨_, .idle, .inl rfl⟩
          | exact ⟨.timeout, _, .inr rfl⟩
    obtain ⟨r, pc, rfl | rfl⟩ := hd
    all_goals exact .kept rfl rfl
  | abandoning job =>
    have hd : ∃ pc, d = c.abandon.goto pc := by
      cases job <;> simp only [hpc] at h <;> exact ⟨_, (some.inj h).symm⟩
    obtain ⟨pc, rfl⟩ := hd
    show Aside c (c.abandon.goto pc) false
    unfold Rpc.State.abandon
    split_ifs
    all_goals exact .kept rfl rfl
  | cleanup next =>
    simp only [hpc] at h
    split_ifs at h
    · cases h
      cases next <;> exact .kept rfl rfl
    · cases h
      exact .kept rfl rfl
  | erasing id next =>
    simp only [hpc] at h
    cases h
    exact ⟨rfl, (Bool.and_false _).symm⟩
  | deactivating id next =>
    simp only [hpc] at h
    split_ifs at h
    all_goals
      cases h
      cases next <;> exact .kept rfl rfl
  | _ => simp [hpc] at h

theorem aside_handle (c : Rpc.State) (reply : Rpc.Reply) : Aside c (c.handle reply) false := by
  unfold Rpc.State.handle
  split_ifs
  · unfold Rpc.State.returnHandler
    split_ifs <;> exact .kept rfl rfl
  · unfold Rpc.State.exceptionHandler
    split_ifs <;> exact .kept rfl rfl
  · unfold Rpc.State.deferralHandler Rpc.State.replaceReturnHandlerId
    split_ifs
    · exact .kept rfl rfl
    · cases c.returnHandlers c.functionInstanceId <;> exact .kept rfl rfl

theorem aside_step (hinsert : ∀ b, act ≠ .insert b) (hscan : ∀ p, act ≠ .unblockRpc p)
    (h : Rpc.step remoteProcess c act = some d) : Aside c d (locks c act) := by
  cases act with
  | insert b => exact absurd rfl (hinsert b)
  | unblockRpc p => exact absurd rfl (hscan p)
  | advance => exact aside_advance h
  | activate id =>
    simp only [Rpc.step] at h
    split_ifs at h
    cases id with
    | none =>
      cases h
      exact .kept rfl rfl
    | some id =>
      dsimp only at h
      split_ifs at h
      cases h
      exact .kept rfl rfl
  | write throws =>
    simp only [Rpc.step] at h
    split_ifs at h
    all_goals
      cases h
      exact .kept rfl rfl
  | unwind =>
    obtain ⟨-, rfl⟩ := of_guard h
    exact ⟨rfl, (Bool.and_false _).symm⟩
  | start handle job =>
    simp only [Rpc.step] at h
    split_ifs at h
    · cases h
      cases job <;> exact .kept rfl rfl
    · cases h
      exact .kept rfl rfl
  | move handle | lookup id reply | foreign id active =>
    obtain ⟨-, rfl⟩ := of_guard h
    exact .kept rfl rfl
  | wake =>
    simp only [Rpc.step] at h
    split at h
    next job _ =>
      split_ifs at h
      · cases h
        cases job <;> exact .kept rfl rfl
      · cases h
        exact .kept rfl rfl
    next => cases h
  | deadline =>
    simp only [Rpc.step] at h
    split_ifs at h
    split at h
    case h_1 | h_2 =>
      cases h
      exact .kept rfl rfl
    next => cases h
  | requestStop =>
    cases h
    exact .kept rfl rfl
  | invoke i =>
    simp only [Rpc.step] at h
    split_ifs at h
    obtain ⟨reply, -, h⟩ := bind_eq_some_iff.1 h
    split_ifs at h
    cases h
    obtain ⟨hcancelled, houtstanding⟩ :=
      aside_handle { c with inFlight := c.inFlight.eraseIdx i } reply
    exact ⟨hcancelled, houtstanding⟩

/-- A scan commits the cancellation of a call that is pending for the process, and changes no other. -/
theorem unblockRpc_cases {process : ℕ} (h : Rpc.step remoteProcess c (.unblockRpc process) = some d) :
    (Pending c ∧ (process = invalidFunctionId ∨ remoteProcess = process) ∧
      d = { c with
        keepWaiting := false, cancelled := true, commits := c.commits ++ [.cancelled] }) ∨
    (¬(Pending c ∧ (process = invalidFunctionId ∨ remoteProcess = process)) ∧ d = c) := by
  obtain ⟨-, rfl⟩ := of_guard h
  unfold Rpc.State.unblockRpc
  split_ifs with hscan
  all_goals simp only [Bool.and_eq_true, Bool.or_eq_true, decide_eq_true_eq] at hscan
  · exact .inl ⟨hscan.1, hscan.2, rfl⟩
  · exact .inr ⟨hscan, rfl⟩

theorem completion_cancelled (h : c.completion = some .cancelled) : c.cancelled = true := by
  by_contra hcancelled
  unfold Rpc.State.completion at h
  split_ifs at h
  all_goals cases h

/-- What is over stays over. -/
theorem not_pending_step (hc : Rpc.Inv c) (hinsert : ∀ b, act ≠ .insert b)
    (hscan : ∀ p, act ≠ .unblockRpc p) (h : Rpc.step remoteProcess c act = some d)
    (hpending : ¬Pending c) : ¬Pending d := by
  rintro ⟨houtstanding, hwaiting⟩
  have hset : c.outstanding = true := by
    rw [(aside_step hinsert hscan h).outstanding, Bool.and_eq_true] at houtstanding
    exact houtstanding.1
  have hover : c.keepWaiting = false := by
    by_contra hne
    exact hpending ⟨hset, by simpa using hne⟩
  cases hcompletion : c.completion with
  | none => simp [Rpc.completion_eq_none_iff.1 hcompletion] at hover
  | some o =>
    have hstable := Rpc.completion_stable hc h hcompletion
    rw [Rpc.completion_eq_none_iff.2 hwaiting] at hstable
    cases hstable

end

/-! ### The invariant -/

section

variable {ι κ : Type*} [DecidableEq ι] [DecidableEq κ] {cfg : Config ι κ} {s t : State ι κ}

/-- The scan is about the process. -/
def Concerns (cfg : Config ι κ) (process : ℕ) (i : ι) : Prop :=
  process = invalidFunctionId ∨ cfg.remoteProcess i = process

instance (cfg : Config ι κ) (process : ℕ) (i : ι) : Decidable (Concerns cfg process i) :=
  inferInstanceAs (Decidable (_ ∨ _))

/-- The scan of the reader has not come to the call yet. -/
def Waits (s : State ι κ) (k : κ) (i : ι) : Prop :=
  (s.calls i).cancelled = false ∧ ∃ process todo, s.lock = .scanning (some k) process todo ∧ i ∈ todo

/-- The call is over, and cancelled only if the reader has done it. -/
def Over (s : State ι κ) (k : κ) (i : ι) : Prop :=
  (s.calls i).completion ≠ none ∧
    ((s.calls i).completion = some .cancelled → i ∈ s.cancelledBy k)

structure Inv (cfg : Config ι κ) (s : State ι κ) : Prop where
  calls : ∀ i, Rpc.Inv (s.calls i)
  mem : ∀ i, i ∈ s.outstanding ↔ (s.calls i).outstanding = true
  scanning : ∀ k, s.phase k = .scanning →
    ∃ todo, s.lock = .scanning (some k) (cfg.scanned k) todo
  owner : ∀ k process todo, s.lock = .scanning (some k) process todo →
    s.phase k = .scanning ∧ process = cfg.scanned k
  /-- The flag is there before the scan, … -/
  flag : ∀ k, cfg.onlyRoute k = true → s.phase k = .stored ∨ s.phase k = .scanning ∨
    s.phase k = .done → s.mustStop = true
  /-- … so that a registration after the scan has found it. -/
  refused : ∀ i b k, s.lock = .registering i b → cfg.onlyRoute k = true → s.phase k = .done → b = true
  todo : ∀ k process todo, s.lock = .scanning k process todo → ∀ i ∈ todo, i ∈ s.outstanding
  visited : ∀ k process todo, s.lock = .scanning k process todo → ∀ i, Pending (s.calls i) →
    Concerns cfg process i → i ∈ todo
  early : ∀ k process todo, s.lock = .scanning (some k) process todo → ∀ i, Pending (s.calls i) →
    Concerns cfg process i → i ∈ s.pendingAt k
  done : ∀ k, cfg.onlyRoute k = true → s.phase k = .done → ∀ i, ¬Pending (s.calls i)
  fresh : ∀ k, s.phase k = .idle ∨ s.phase k = .claimed ∨ s.phase k = .stored →
    s.cancelledBy k = []
  cancelled : ∀ k, ∀ i ∈ s.cancelledBy k,
    i ∈ s.pendingAt k ∧ (s.calls i).completion = some .cancelled
  pendingAt : ∀ k, ∀ i ∈ s.pendingAt k, Concerns cfg (cfg.scanned k) i ∧ (Waits s k i ∨ Over s k i)

theorem inv_init (h : (machine cfg).init s) : Inv cfg s := by
  obtain ⟨-, hlock, hempty, hcalls, hreaders⟩ := h
  refine ⟨fun i => ?_, fun i => ?_, fun k hk => ?_, ?_, fun k _ hk => ?_, ?_, ?_, ?_, ?_,
    fun k _ hk => ?_, fun k _ => (hreaders k).2.2, fun k i hi => ?_, fun k i hi => ?_⟩
  · obtain ⟨handlers, hnone, hinit⟩ := hcalls i
    rw [hinit]
    exact Rpc.inv_initial hnone
  · obtain ⟨handlers, -, hinit⟩ := hcalls i
    rw [hempty, hinit]
    exact ⟨(nomatch ·), (nomatch ·)⟩
  · cases (hreaders k).1.symm.trans hk
  · intro k process todo hscan
    cases hlock.symm.trans hscan
  · rw [(hreaders k).1] at hk
    rcases hk with hk | hk | hk <;> cases hk
  · intro i b k hreg
    cases hlock.symm.trans hreg
  · intro k process todo hscan
    cases hlock.symm.trans hscan
  · intro k process todo hscan
    cases hlock.symm.trans hscan
  · intro k process todo hscan
    cases hlock.symm.trans hscan
  · cases (hreaders k).1.symm.trans hk
  · rw [(hreaders k).2.2] at hi
    cases hi
  · rw [(hreaders k).2.1] at hi
    cases hi

/-- While no reader scans, none is in that phase, and what was pending for one is over. -/
theorem Inv.not_scanning (hs : Inv cfg s)
    (hlock : ∀ k process todo, s.lock ≠ .scanning (some k) process todo) : (∀ k, s.phase k ≠ .scanning) ∧
      ∀ k, ∀ i ∈ s.pendingAt k, Concerns cfg (cfg.scanned k) i ∧ Over s k i := by
  refine ⟨fun k hk => ?_, fun k i hi => ?_⟩
  · obtain ⟨todo, hscan⟩ := hs.scanning k hk
    exact hlock k _ todo hscan
  · obtain ⟨hconcerns, ⟨-, process, todo, hscan, -⟩ | hover⟩ := hs.pendingAt k i hi
    · exact absurd hscan (hlock k process todo)
    · exact ⟨hconcerns, hover⟩

/-- What a step of a call has to keep. -/
structure Keeps (c d : Rpc.State) : Prop where
  inv : Rpc.Inv d
  pending : Pending d → Pending c
  cancelled : d.cancelled = c.cancelled
  completion : ∀ o, c.completion = some o → d.completion = some o

theorem Keeps.over {c d : Rpc.State} (h : Keeps c d) {P : Prop}
    (hover : c.completion ≠ none ∧ (c.completion = some .cancelled → P)) :
    d.completion ≠ none ∧ (d.completion = some .cancelled → P) := by
  obtain ⟨o, ho⟩ := ne_none_iff_exists'.1 hover.1
  rw [h.completion o ho]
  refine ⟨(nomatch ·), fun hcancelled => hover.2 (ho.trans hcancelled)⟩

variable {i : ι} {k : κ}

/-- A call takes a step; the set is as before, or the call is removed from it. -/
theorem Inv.setCall (hs : Inv cfg s) {d : Rpc.State} (hd : Keeps (s.calls i) d)
    {outstanding : List ι} (hmem : ∀ j, j ∈ outstanding ↔ (update s.calls i d j).outstanding = true)
    (hset : (∃ k process todo, s.lock = .scanning k process todo) → outstanding = s.outstanding) :
    Inv cfg { s.setCall i d with outstanding := outstanding } := by
  have hkeeps : ∀ j, Keeps (s.calls j) (update s.calls i d j) :=
    forall_update (fun j => Keeps (s.calls j)) rfl (fun _ => hd)
      fun j => ⟨hs.calls j, id, rfl, fun _ => id⟩
  refine ⟨fun j => (hkeeps j).inv, hmem, hs.scanning, hs.owner, hs.flag, hs.refused, ?_, ?_, ?_, ?_,
    hs.fresh, ?_, ?_⟩
  · intro k process todo hlock j hj
    show j ∈ outstanding
    rw [hset ⟨k, process, todo, hlock⟩]
    exact hs.todo k process todo hlock j hj
  · exact fun k process todo hlock j hj => hs.visited k process todo hlock j ((hkeeps j).pending hj)
  · exact fun k process todo hlock j hj => hs.early k process todo hlock j ((hkeeps j).pending hj)
  · exact fun k hroute hdone j hj => hs.done k hroute hdone j ((hkeeps j).pending hj)
  · intro k j hj
    obtain ⟨hmem, hcancelled⟩ := hs.cancelled k j hj
    exact ⟨hmem, (hkeeps j).completion _ hcancelled⟩
  · intro k j hj
    obtain ⟨hconcerns, hwaits | hover⟩ := hs.pendingAt k j hj
    · exact ⟨hconcerns, .inl ⟨(hkeeps j).cancelled.trans hwaits.1, hwaits.2⟩⟩
    · exact ⟨hconcerns, .inr ((hkeeps j).over hover)⟩

/-- A call takes a step that does not touch the set, or is removed from it under the mutex. -/
theorem callStep_cases {act : Rpc.Action} (h : s.callStep cfg i act = some t) :
    (∀ b, act ≠ .insert b) ∧ (∀ p, act ≠ .unblockRpc p) ∧
      ∃ d, Rpc.step (cfg.remoteProcess i) (s.calls i) act = some d ∧
        (locks (s.calls i) act = false ∧ t = s.setCall i d ∨
          locks (s.calls i) act = true ∧ s.lock = .free ∧
            t = { s.setCall i d with outstanding := s.outstanding.filter (· ≠ i) }) := by
  unfold State.callStep at h
  split at h
  next => cases h
  next => cases h
  next act hinsert hscan =>
    refine ⟨hinsert, hscan, ?_⟩
    split at h
    next hlocks =>
      obtain ⟨d, hd, rfl⟩ := map_eq_some_iff.1 h
      exact ⟨d, hd, .inl ⟨hlocks, rfl⟩⟩
    next hlocks hfree =>
      obtain ⟨d, hd, rfl⟩ := map_eq_some_iff.1 h
      exact ⟨d, hd, .inr ⟨hlocks, hfree, rfl⟩⟩
    next => cases h

theorem Inv.callStep (hs : Inv cfg s) {act : Rpc.Action} (h : s.callStep cfg i act = some t) :
    Inv cfg t := by
  obtain ⟨hinsert, hscan, d, hd, hcase⟩ := callStep_cases h
  have haside := aside_step hinsert hscan hd
  have hkeeps : Keeps (s.calls i) d := by
    refine ⟨(hs.calls i).step hd, fun hpending => ?_, haside.cancelled,
      fun o ho => Rpc.completion_stable (hs.calls i) hd ho⟩
    by_contra hnot
    exact not_pending_step (hs.calls i) hinsert hscan hd hnot hpending
  rcases hcase with ⟨hlocks, rfl⟩ | ⟨hlocks, hfree, rfl⟩
  · refine hs.setCall hkeeps (fun j => ?_) fun _ => rfl
    rw [hs.mem j]
    obtain rfl | hji := eq_or_ne j i
    · rw [update_self, haside.outstanding, hlocks, Bool.not_false, Bool.and_true]
    · rw [update_of_ne hji]
  · refine hs.setCall hkeeps (fun j => ?_) ?_
    · rw [List.mem_filter, hs.mem j]
      obtain rfl | hji := eq_or_ne j i
      · rw [update_self, haside.outstanding, hlocks]
        simp
      · simp [hji]
    · rintro ⟨k, process, todo, hlock⟩
      cases hfree.symm.trans hlock

/-- A call takes the mutex and loads the flag, which a reader of the only route has stored before. -/
theorem Inv.register (hs : Inv cfg s) (h : s.step cfg (.register i) = some t) : Inv cfg t := by
  simp only [State.step] at h
  split at h
  next hfree =>
    split_ifs at h
    cases h
    obtain ⟨hphase, hover⟩ := hs.not_scanning (hfree ▸ nofun)
    refine ⟨hs.calls, hs.mem, fun k hk => absurd hk (hphase k), nofun, hs.flag, ?_, nofun, nofun, nofun,
      hs.done, hs.fresh, hs.cancelled, fun k j hj => (hover k j hj).imp_right .inr⟩
    intro j b k hlock hroute hdone
    obtain ⟨-, rfl⟩ := Lock.registering.inj hlock
    have hleaf : cfg.coordinator = false := by
      rw [Config.onlyRoute, Bool.and_eq_true, Bool.not_eq_true'] at hroute
      exact hroute.1
    rw [hleaf, hs.flag k hroute (.inr (.inr hdone))]
    rfl
  next => cases h

/-- The registration ends with a call in the set, unless the flag was found. -/
theorem Inv.insert (hs : Inv cfg s) (h : s.step cfg (.insert i) = some t) : Inv cfg t := by
  simp only [State.step] at h
  split at h
  next j refused hreg =>
    rw [ite_none_right_eq_some] at h
    obtain ⟨rfl, h⟩ := h
    obtain ⟨d, hd, rfl⟩ := map_eq_some_iff.1 h
    have hfields : d.completion = (s.calls i).completion ∧
        d.outstanding = ((s.calls i).outstanding || !refused) := by
      obtain ⟨-, rfl⟩ := of_guard hd
      cases refused
      · exact ⟨rfl, (Bool.or_true _).symm⟩
      · exact ⟨rfl, (Bool.or_false _).symm⟩
    have hcompletion : ∀ j, (update s.calls i d j).completion = (s.calls j).completion :=
      proj_update Rpc.State.completion hfields.1
    obtain ⟨hphase, hover⟩ := hs.not_scanning (hreg ▸ nofun)
    refine ⟨forall_update (fun _ => Rpc.Inv) rfl (·.step hd) hs.calls, fun j => ?_,
      fun k hk => absurd hk (hphase k), nofun, hs.flag, nofun, nofun, nofun, nofun,
      fun k hroute hdone j => ?_, hs.fresh, fun k j hj => ?_,
      fun k j hj => (hover k j hj).imp_right fun hover => .inr ?_⟩
    · show (j ∈ if refused = true then s.outstanding else i :: s.outstanding) ↔
        (update s.calls i d j).outstanding = true
      obtain rfl | hji := eq_or_ne j i
      · rw [update_self, hfields.2]
        cases refused <;> simp [hs.mem]
      · rw [update_of_ne hji, ← hs.mem j]
        cases refused <;> simp [hji]
    · -- No call is inserted when a reader of the only route has gone: it is refused.
      obtain rfl := hs.refused i refused k hreg hroute hdone
      have hnot := hs.done k hroute hdone j
      rintro ⟨houtstanding, hwaiting⟩
      have hset : (s.calls j).outstanding = true := by
        obtain rfl | hji := eq_or_ne j i
        · rw [show (_ : Rpc.State).outstanding = _ from congrArg _ (update_self ..),
            hfields.2] at houtstanding
          simpa using houtstanding
        · rwa [show (_ : Rpc.State).outstanding = _ from congrArg _ (update_of_ne hji ..)]
            at houtstanding
      refine hnot ⟨hset, ?_⟩
      rw [← Rpc.completion_eq_none_iff] at hwaiting ⊢
      exact (hcompletion j).symm.trans hwaiting
    · obtain ⟨hmem, hcancelled⟩ := hs.cancelled k j hj
      exact ⟨hmem, (hcompletion j).trans hcancelled⟩
    · show (update s.calls i d j).completion ≠ none ∧
        ((update s.calls i d j).completion = some .cancelled → j ∈ s.cancelledBy k)
      rw [hcompletion j]
      exact hover
  next => cases h

theorem phase_of_setPhase {k' : κ} {p q : Phase} (h : (s.setPhase k p).phase k' = q) (hne : q ≠ p) :
    s.phase k' = q := by
  obtain ⟨-, rfl⟩ | ⟨-, hold⟩ := update_cases h
  · exact absurd rfl hne
  · exact hold

/-- A reader comes to its next phase before the scan; the flag may be stored. -/
theorem Inv.setPhase (hs : Inv cfg s) {p : Phase} {mustStop : Bool} (hlock : s.phase k ≠ .scanning)
    (hdone : s.phase k = .idle ∨ s.phase k = .claimed) (hp : p = .claimed ∨ p = .stored)
    (hflag : p = .stored → cfg.onlyRoute k = true → mustStop = true)
    (hstop : s.mustStop = true → mustStop = true) :
    Inv cfg { s.setPhase k p with mustStop := mustStop } := by
  have hscanning : Phase.scanning ≠ p := by
    rcases hp with rfl | rfl <;> decide
  have hended : Phase.done ≠ p := by
    rcases hp with rfl | rfl <;> decide
  refine ⟨hs.calls, hs.mem, fun k' hk' => hs.scanning k' (phase_of_setPhase hk' hscanning),
    fun k' process todo h => ?_, fun k' hroute hk' => ?_,
    fun i b k' h hroute hk' => hs.refused i b k' h hroute (phase_of_setPhase hk' hended),
    hs.todo, hs.visited, hs.early, fun k' hroute hk' => hs.done k' hroute (phase_of_setPhase hk' hended),
    fun k' hk' => ?_, hs.cancelled, hs.pendingAt⟩
  · obtain ⟨hphase, hprocess⟩ := hs.owner k' process todo h
    have hk : k' ≠ k := by
      rintro rfl
      exact hlock hphase
    exact ⟨(update_of_ne hk ..).trans hphase, hprocess⟩
  · obtain rfl | hk := eq_or_ne k' k
    · have hself : (s.setPhase k' p).phase k' = p := update_self ..
      refine hflag ?_ hroute
      rcases hk' with hk' | hk' | hk'
      · exact hself.symm.trans hk'
      · exact absurd (hself.symm.trans hk').symm hscanning
      · exact absurd (hself.symm.trans hk').symm hended
    · simp only [State.setPhase, update_of_ne hk] at hk'
      exact hstop (hs.flag k' hroute hk')
  · obtain rfl | hk := eq_or_ne k' k
    · exact hs.fresh k' (hdone.imp_right .inl)
    · simp only [State.setPhase, update_of_ne hk] at hk'
      exact hs.fresh k' hk'

/-- The mutex is taken for a scan by nobody of the readers. -/
theorem Inv.unblockRpc (hs : Inv cfg s) (process : ℕ) (hfree : s.lock = .free) :
    Inv cfg { s with lock := .scanning none process s.outstanding } := by
  obtain ⟨hphase, hover⟩ := hs.not_scanning (hfree ▸ nofun)
  refine ⟨hs.calls, hs.mem, fun k hk => absurd hk (hphase k), nofun, hs.flag, nofun,
    fun k process todo h j hj => ?_, fun k process todo h j hj _ => ?_, nofun, hs.done, hs.fresh,
    hs.cancelled, fun k j hj => (hover k j hj).imp_right .inr⟩
  all_goals obtain ⟨-, -, rfl⟩ := Lock.scanning.inj h
  · exact hj
  · exact (hs.mem j).2 hj.1

theorem mem_pendingFor (hs : Inv cfg s) {process : ℕ} :
    i ∈ s.pendingFor cfg process ↔ Pending (s.calls i) ∧ Concerns cfg process i := by
  unfold State.pendingFor Pending Concerns
  rw [List.mem_filter, hs.mem i, Bool.and_eq_true, Bool.or_eq_true, decide_eq_true_eq, decide_eq_true_eq,
    and_assoc]

theorem Inv.scan (hs : Inv cfg s) (h : s.step cfg (.scan k) = some t) : Inv cfg t := by
  simp only [State.step] at h
  split at h
  next hfree =>
    obtain ⟨hstored, rfl⟩ := Machine.of_guard h
    obtain ⟨hphase, hover⟩ := hs.not_scanning (hfree ▸ nofun)
    refine ⟨hs.calls, hs.mem, fun k' hk' => ?_, fun k' process todo h => ?_, fun k' hroute hk' => ?_, nofun,
      fun k' process todo h j hj => ?_, fun k' process todo h j hj _ => ?_,
      fun k' process todo h j hj hconcerns => ?_,
      fun k' hroute hk' => hs.done k' hroute (phase_of_setPhase hk' nofun), fun k' hk' => ?_,
      fun k' j hj => ?_, fun k' j hj => ?_⟩
    · obtain ⟨rfl, -⟩ | ⟨-, hk'⟩ := update_cases hk'
      · exact ⟨_, rfl⟩
      · exact absurd hk' (hphase k')
    · obtain ⟨hk, rfl, -⟩ := Lock.scanning.inj h
      cases hk
      exact ⟨update_self .., rfl⟩
    · obtain rfl | hk := eq_or_ne k' k
      · exact hs.flag k' hroute (.inl hstored)
      · simp only [State.setPhase, update_of_ne hk] at hk'
        exact hs.flag k' hroute hk'
    · obtain ⟨-, -, rfl⟩ := Lock.scanning.inj h
      exact hj
    · obtain ⟨-, -, rfl⟩ := Lock.scanning.inj h
      exact (hs.mem j).2 hj.1
    · obtain ⟨hk, rfl, -⟩ := Lock.scanning.inj h
      cases hk
      show j ∈ update s.pendingAt k _ k
      rw [update_self, mem_pendingFor hs]
      exact ⟨hj, hconcerns⟩
    · rcases hk' with hk' | hk' | hk'
      · exact hs.fresh k' (.inl (phase_of_setPhase hk' nofun))
      · exact hs.fresh k' (.inr (.inl (phase_of_setPhase hk' nofun)))
      · exact hs.fresh k' (.inr (.inr (phase_of_setPhase hk' nofun)))
    · have hk : k' ≠ k := by
        rintro rfl
        change j ∈ s.cancelledBy k' at hj
        rw [hs.fresh k' (.inr (.inr hstored))] at hj
        cases hj
      obtain ⟨hmem, hcancelled⟩ := hs.cancelled k' j hj
      refine ⟨?_, hcancelled⟩
      show j ∈ update s.pendingAt k _ k'
      rwa [update_of_ne hk]
    · change j ∈ update s.pendingAt k _ k' at hj
      obtain rfl | hk := eq_or_ne k' k
      · rw [update_self, mem_pendingFor hs] at hj
        refine ⟨hj.2, .inl ⟨?_, _, _, rfl, (hs.mem j).2 hj.1.1⟩⟩
        exact ((hs.calls j).pending hj.1.2).2.1
      · rw [update_of_ne hk] at hj
        exact (hover k' j hj).imp_right .inr
  next => cases h

/-- The step of a scan to a call of the set. -/
theorem visit_cases (h : s.visit cfg i = some t) : ∃ k process todo d,
    s.lock = .scanning k process todo ∧ i ∈ todo ∧
      Rpc.step (cfg.remoteProcess i) (s.calls i) (.unblockRpc process) = some d ∧
      t.lock = .scanning k process (todo.filter (· ≠ i)) ∧ t.mustStop = s.mustStop ∧
      t.outstanding = s.outstanding ∧ t.calls = update s.calls i d ∧ t.phase = s.phase ∧
      t.pendingAt = s.pendingAt ∧
      ∀ k', t.cancelledBy k' = if k = some k' ∧ Pending (s.calls i) ∧ Concerns cfg process i then
        i :: s.cancelledBy k' else s.cancelledBy k' := by
  unfold State.visit at h
  split at h
  next k process todo hlock =>
    rw [ite_none_right_eq_some] at h
    obtain ⟨hmem, h⟩ := h
    obtain ⟨d, hd, rfl⟩ := map_eq_some_iff.1 h
    refine ⟨k, process, todo, d, hlock, hmem, hd, rfl, rfl, rfl, rfl, rfl, rfl, fun k' => ?_⟩
    refine if_congr (and_congr_right fun _ => ?_) rfl rfl
    rcases unblockRpc_cases hd with ⟨hpending, hconcerns, rfl⟩ | ⟨hnot, rfl⟩
    · exact ⟨fun _ => ⟨hpending, hconcerns⟩, fun _ => hpending.2 ▸ Bool.false_ne_true⟩
    · exact ⟨fun hne => absurd rfl hne, fun hpending => absurd hpending hnot⟩
  next => cases h

theorem Inv.visit (hs : Inv cfg s) (h : s.visit cfg i = some t) : Inv cfg t := by
  obtain ⟨k, process, todo, d, hlock, hmem, hd, htlock, hstop, hout, hcalls, hphase, hpending, hby⟩ :=
    visit_cases h
  have hcall : ∀ j, t.calls j = if j = i then d else s.calls j := by
    intro j
    rw [hcalls, update_apply]
  have hcase := unblockRpc_cases hd
  -- A call that is still pending is another one, or none of this scan.
  have hstill : ∀ j, Pending (t.calls j) → Pending (s.calls j) ∧ (j = i → ¬Concerns cfg process j) := by
    intro j hj
    rw [hcall] at hj
    split_ifs at hj with hji
    · subst hji
      rcases hcase with ⟨-, -, rfl⟩ | ⟨hnot, rfl⟩
      · cases hj.2
      · exact ⟨hj, fun _ hconcerns => hnot ⟨hj, hconcerns⟩⟩
    · exact ⟨hj, fun h => absurd h hji⟩
  have hstable : ∀ j o, (s.calls j).completion = some o → (t.calls j).completion = some o := by
    intro j o ho
    rw [hcall]
    split_ifs with hji
    · subst hji
      exact Rpc.completion_stable (hs.calls j) hd ho
    · exact ho
  have hkeeps : ∀ k' j, j ∈ s.cancelledBy k' → j ∈ t.cancelledBy k' := by
    intro k' j hj
    rw [hby]
    split_ifs
    · exact List.mem_cons_of_mem _ hj
    · exact hj
  refine ⟨fun j => ?_, fun j => ?_, fun k' hk' => ?_, fun k' process' todo' h => ?_, fun k' hroute hk' => ?_,
    fun j b k' h => ?_, fun k' process' todo' h j hj => ?_, fun k' process' todo' h j hj hconcerns => ?_,
    fun k' process' todo' h j hj hconcerns => ?_, fun k' hroute hk' j hj => ?_, fun k' hk' => ?_, fun k' j hj => ?_, fun k' j hj => ?_⟩
  · rw [hcall]
    split_ifs with hji
    · subst hji
      exact (hs.calls j).step hd
    · exact hs.calls j
  · rw [hout, hcall, hs.mem j]
    split_ifs with hji
    · subst hji
      rcases hcase with ⟨-, -, rfl⟩ | ⟨-, rfl⟩ <;> rfl
    · rfl
  · rw [hphase] at hk'
    obtain ⟨todo', hlock'⟩ := hs.scanning k' hk'
    obtain ⟨rfl, rfl, -⟩ := Lock.scanning.inj (hlock.symm.trans hlock')
    exact ⟨_, htlock⟩
  · obtain ⟨rfl, rfl, -⟩ := Lock.scanning.inj (htlock.symm.trans h)
    rw [hphase]
    exact hs.owner k' process todo hlock
  · rw [hphase] at hk'
    rw [hstop]
    exact hs.flag k' hroute hk'
  · cases htlock.symm.trans h
  · obtain ⟨-, -, rfl⟩ := Lock.scanning.inj (htlock.symm.trans h)
    rw [hout]
    exact hs.todo k process todo hlock j (List.mem_filter.1 hj).1
  · obtain ⟨-, rfl, rfl⟩ := Lock.scanning.inj (htlock.symm.trans h)
    obtain ⟨hpending, hne⟩ := hstill j hj
    refine List.mem_filter.2 ⟨hs.visited k process todo hlock j hpending hconcerns, ?_⟩
    exact decide_eq_true fun hji => hne hji hconcerns
  · obtain ⟨rfl, rfl, -⟩ := Lock.scanning.inj (htlock.symm.trans h)
    rw [hpending]
    exact hs.early k' process todo hlock j (hstill j hj).1 hconcerns
  · rw [hphase] at hk'
    exact hs.done k' hroute hk' j (hstill j hj).1
  · rw [hphase] at hk'
    rw [hby, if_neg, hs.fresh k' hk']
    rintro ⟨rfl, -⟩
    rw [(hs.owner k' process todo hlock).1] at hk'
    rcases hk' with hk' | hk' | hk' <;> cases hk'
  · -- The call that is cancelled was pending, since it is of this scan and not cancelled before.
    have hnew : j ∈ s.cancelledBy k' ∨ (j = i ∧ k = some k' ∧ Pending (s.calls i) ∧
        Concerns cfg process i) := by
      rw [hby] at hj
      split_ifs at hj with hnew
      · rcases List.mem_cons.1 hj with rfl | hj
        · exact .inr ⟨rfl, hnew⟩
        · exact .inl hj
      · exact .inl hj
    rw [hpending]
    rcases hnew with hj | ⟨rfl, rfl, hwas, hconcerns⟩
    · obtain ⟨hmem, hcancelled⟩ := hs.cancelled k' j hj
      exact ⟨hmem, hstable j _ hcancelled⟩
    · refine ⟨hs.early k' process todo hlock j hwas hconcerns, ?_⟩
      obtain ⟨-, -, rfl⟩ | ⟨hnot, -⟩ := hcase
      · rw [hcall, if_pos rfl]
        have hnone := ((hs.calls j).pending hwas.2).1
        simp [Rpc.State.completion, hnone]
      · exact absurd ⟨hwas, hconcerns⟩ hnot
  · rw [hpending] at hj
    obtain ⟨hconcerns, hold⟩ := hs.pendingAt k' j hj
    refine ⟨hconcerns, ?_⟩
    rcases hold with ⟨hcancelled, process', todo', hlock', hj'⟩ | hover
    · obtain ⟨rfl, rfl, rfl⟩ := Lock.scanning.inj (hlock.symm.trans hlock')
      obtain rfl := (hs.owner k' process todo hlock).2
      obtain rfl | hji := eq_or_ne j i
      · refine .inr ?_
        unfold Over
        rw [hby, hcall, if_pos rfl]
        obtain ⟨hwas, -, rfl⟩ | ⟨hnot, rfl⟩ := hcase
        · refine ⟨Rpc.completion_ne_none_iff.2 rfl, fun _ => ?_⟩
          rw [if_pos ⟨rfl, hwas, hconcerns⟩]
          exact List.mem_cons_self
        · have hset := (hs.mem j).1 (hs.todo _ _ _ hlock j hmem)
          have hended : ¬(s.calls j).keepWaiting = true := fun hwait => hnot ⟨⟨hset, hwait⟩, hconcerns⟩
          refine ⟨Rpc.completion_ne_none_iff.2 (Bool.eq_false_iff.2 hended), fun hcompletion => ?_⟩
          rw [completion_cancelled hcompletion] at hcancelled
          cases hcancelled
      · refine .inl ⟨?_, _, _, htlock, List.mem_filter.2 ⟨hj', decide_eq_true hji⟩⟩
        rw [hcall, if_neg hji]
        exact hcancelled
    · obtain ⟨o, ho⟩ := ne_none_iff_exists'.1 hover.1
      refine .inr ?_
      unfold Over
      rw [hstable j o ho]
      exact ⟨by rintro ⟨⟩, fun hcompletion => hkeeps k' j (hover.2 (ho.trans hcompletion))⟩

theorem Inv.unlock (hs : Inv cfg s) (h : s.step cfg .unlock = some t) : Inv cfg t := by
  simp only [State.step] at h
  split at h
  next process hlock =>
    cases h
    obtain ⟨hphase, hover⟩ := hs.not_scanning (hlock ▸ nofun)
    exact ⟨hs.calls, hs.mem, fun k hk => absurd hk (hphase k), nofun, hs.flag, nofun, nofun, nofun, nofun,
      hs.done, hs.fresh, hs.cancelled, fun k j hj => (hover k j hj).imp_right .inr⟩
  next k process hlock =>
    cases h
    obtain ⟨hphase, hprocess⟩ := hs.owner k process [] hlock
    refine ⟨hs.calls, hs.mem, fun k' hk' => ?_, nofun, fun k' hroute hk' => ?_, nofun, nofun, nofun, nofun,
      fun k' hroute hk' j hj => ?_, fun k' hk' => ?_, hs.cancelled, fun k' j hj => ?_⟩
    · obtain ⟨-, ⟨⟩⟩ | ⟨hk, hk'⟩ := update_cases hk'
      obtain ⟨todo, hlock'⟩ := hs.scanning k' hk'
      obtain ⟨hkk, -, -⟩ := Lock.scanning.inj (hlock.symm.trans hlock')
      exact absurd (Option.some.inj hkk).symm hk
    · obtain rfl | hk := eq_or_ne k' k
      · exact hs.flag k' hroute (.inr (.inl hphase))
      · simp only [State.setPhase, update_of_ne hk] at hk'
        exact hs.flag k' hroute hk'
    · obtain ⟨rfl, -⟩ | ⟨-, hk'⟩ := update_cases hk'
      · -- Nothing is left to visit, and the scan of the only route is about every call.
        have hall : Concerns cfg process j := .inl (hprocess.trans (if_pos hroute))
        cases hs.visited _ _ _ hlock j hj hall
      · exact hs.done k' hroute hk' j hj
    · obtain rfl | hk := eq_or_ne k' k
      · simp [State.setPhase] at hk'
      · simp only [State.setPhase, update_of_ne hk] at hk'
        exact hs.fresh k' hk'
    · obtain ⟨hconcerns, ⟨-, process, todo, hlock', hj'⟩ | hover⟩ := hs.pendingAt k' j hj
      · obtain ⟨-, -, rfl⟩ := Lock.scanning.inj (hlock.symm.trans hlock')
        cases hj'
      · exact ⟨hconcerns, .inr hover⟩
  next => cases h

theorem Inv.step (hs : Inv cfg s) {act : Action ι κ} (h : s.step cfg act = some t) : Inv cfg t := by
  cases act with
  | register i => exact hs.register h
  | insert i => exact hs.insert h
  | call i act => exact hs.callStep h
  | stop =>
    cases h
    exact { hs with flag := fun _ _ _ => rfl }
  | claim k =>
    obtain ⟨hidle, rfl⟩ := of_guard h
    exact hs.setPhase (hidle ▸ nofun) (.inl hidle) (.inl rfl) nofun id
  | store k =>
    obtain ⟨hclaimed, rfl⟩ := of_guard h
    refine hs.setPhase (hclaimed ▸ nofun) (.inr hclaimed) (.inr rfl) (fun _ hroute => ?_) fun hstop => ?_
    · rw [hroute, Bool.or_true]
    · rw [hstop, Bool.true_or]
  | scan k => exact hs.scan h
  | unblockRpc process =>
    simp only [State.step] at h
    split at h
    next hfree =>
      cases h
      exact hs.unblockRpc process hfree
    next => cases h
  | visit i => exact hs.visit h
  | unlock => exact hs.unlock h

/-- The invariant of the flag, the mutex and the set. -/
theorem reachable_inv (h : (machine cfg).Reachable s) : Inv cfg s :=
  h.invariant (fun _ => inv_init) fun _ _ _ hs => hs.step

/-! ### When the route is gone -/

theorem Inv.over (hs : Inv cfg s) (hdone : s.phase k = .done) (hi : i ∈ s.pendingAt k) :
    Over s k i := by
  obtain ⟨-, ⟨-, process, todo, hlock, -⟩ | hover⟩ := hs.pendingAt k i hi
  · cases hdone.symm.trans (hs.owner k process todo hlock).1
  · exact hover

theorem concerns_scanned (hcoord : cfg.coordinator = true) (k : κ) (i : ι) :
    Concerns cfg (cfg.scanned k) i ↔ cfg.remoteProcess i = cfg.process k := by
  have hscanned : cfg.scanned k = cfg.process k := by
    unfold Config.scanned Config.onlyRoute
    rw [hcoord]
    rfl
  rw [hscanned]
  exact or_iff_right (cfg.process_ne k)

/-- A reader whose `unblock_rpc_once` is over stays so. -/
theorem done_stable {act : Action ι κ} (hdone : s.phase k = .done) (h : s.step cfg act = some t) :
    t.phase k = .done := by
  have hset : ∀ {k' : κ} {p q : Phase}, s.phase k' = q → q ≠ .done →
      (s.setPhase k' p).phase k = .done := by
    intro k' p q hq hne
    have hk : k ≠ k' := by
      rintro rfl
      exact hne (hq.symm.trans hdone)
    exact (update_of_ne hk ..).trans hdone
  cases act with
  | claim k' | store k' =>
    obtain ⟨hg, rfl⟩ := of_guard h
    exact hset hg nofun
  | scan k' =>
    simp only [State.step] at h
    split at h
    next =>
      obtain ⟨hg, rfl⟩ := of_guard h
      exact hset hg nofun
    next => cases h
  | unlock =>
    simp only [State.step] at h
    split at h
    next =>
      cases h
      exact hdone
    next k' process hlock =>
      cases h
      obtain rfl | hk := eq_or_ne k k'
      · exact update_self ..
      · exact (update_of_ne hk ..).trans hdone
    next => cases h
  | register i =>
    simp only [State.step] at h
    split at h
    next =>
      obtain ⟨-, rfl⟩ := of_guard h
      exact hdone
    next => cases h
  | insert i =>
    simp only [State.step] at h
    split at h
    next =>
      rw [ite_none_right_eq_some] at h
      obtain ⟨d, -, rfl⟩ := map_eq_some_iff.1 h.2
      exact hdone
    next => cases h
  | call i act =>
    obtain ⟨-, -, d, -, ⟨-, rfl⟩ | ⟨-, -, rfl⟩⟩ := callStep_cases h
    all_goals exact hdone
  | stop =>
    cases h
    exact hdone
  | unblockRpc process =>
    simp only [State.step] at h
    split at h
    next =>
      cases h
      exact hdone
    next => cases h
  | visit i =>
    obtain ⟨k, process, todo, d, -, -, -, -, -, -, -, hphase, -, -⟩ := visit_cases h
    rw [hphase]
    exact hdone

theorem done_steps (hdone : s.phase k = .done) (h : (machine cfg).Steps s t) :
    t.phase k = .done := by
  induction h with
  | refl => exact hdone
  | tail _ hstep ih => exact done_stable ih hstep

/-- On a leaf, when `unblock_rpc_once` of the reader of the coordinator is over, no call is pending and
none ever will be. On the coordinator, the reader takes the mutex when certain calls for its process are
pending; it changes a call only to cancel it, if it is one of these and still pending when it comes to
it; and when it has gone each of them is over, cancelled by this reader or by nobody. -/
theorem route_lost (h : (machine cfg).Reachable s) :
    (∀ k, cfg.onlyRoute k = true → s.phase k = .done →
      ∀ t, (machine cfg).Steps s t → ∀ i, ¬Pending (t.calls i)) ∧
    (cfg.coordinator = true → ∀ k,
      (∀ t, s.step cfg (.scan k) = some t →
        ∀ i, i ∈ t.pendingAt k ↔ Pending (s.calls i) ∧ cfg.remoteProcess i = cfg.process k) ∧
      (∀ process todo i t, s.lock = .scanning (some k) process todo →
        s.step cfg (.visit i) = some t →
          (∀ j, t.calls j ≠ s.calls j → j = i) ∧
          (t.calls i ≠ s.calls i ↔ Pending (s.calls i) ∧ cfg.remoteProcess i = cfg.process k) ∧
          (t.calls i ≠ s.calls i → (t.calls i).completion = some .cancelled ∧ i ∈ t.cancelledBy k)) ∧
      (s.phase k = .done → ∀ i,
        (i ∈ s.cancelledBy k → i ∈ s.pendingAt k) ∧
        (i ∈ s.pendingAt k → cfg.remoteProcess i = cfg.process k ∧ (s.calls i).completion ≠ none ∧
          ((s.calls i).completion = some .cancelled ↔ i ∈ s.cancelledBy k)))) := by
  have hs := reachable_inv h
  refine ⟨fun k hroute hdone t hsteps => ?_, fun hcoord k => ⟨fun t hscan i => ?_, ?_, fun hdone i => ?_⟩⟩
  · exact (reachable_inv (h.steps hsteps)).done k hroute (done_steps hdone hsteps)
  · simp only [State.step] at hscan
    split at hscan
    next =>
      obtain ⟨-, rfl⟩ := of_guard hscan
      show i ∈ update s.pendingAt k _ k ↔ _
      rw [update_self, mem_pendingFor hs, concerns_scanned hcoord]
    next => cases hscan
  · intro process todo i t hlock hvisit
    have ht := hs.visit hvisit
    obtain ⟨k', process', todo', d, hlock', hmem, hd, -, -, -, hcalls, -, -, hby⟩ := visit_cases hvisit
    obtain ⟨rfl, rfl, rfl⟩ := Lock.scanning.inj (hlock.symm.trans hlock')
    obtain ⟨-, rfl⟩ := hs.owner k process todo hlock
    have hself : t.calls i = d := by rw [hcalls, update_self]
    rw [hself]
    have hconcerns := concerns_scanned hcoord k i
    rcases unblockRpc_cases hd with ⟨hpending, htarget, hcancels⟩ | ⟨hnot, rfl⟩
    · have hin : i ∈ t.cancelledBy k := by
        rw [hby, if_pos ⟨rfl, hpending, htarget⟩]
        exact List.mem_cons_self
      have hne : d ≠ s.calls i := by
        intro heq
        have hwait := hpending.2
        rw [← heq, hcancels] at hwait
        cases hwait
      refine ⟨fun j hj => ?_, ⟨fun _ => ⟨hpending, hconcerns.1 htarget⟩, fun _ => hne⟩, fun _ => ⟨?_, hin⟩⟩
      · by_contra hji
        rw [hcalls, update_of_ne hji] at hj
        exact hj rfl
      · rw [← hself]
        exact (ht.cancelled k i hin).2
    · refine ⟨fun j hj => ?_, ⟨fun hne => absurd rfl hne, fun hpending => ?_⟩, fun hne => absurd rfl hne⟩
      · rw [hcalls, update_eq_self] at hj
        exact absurd rfl hj
      · exact absurd ⟨hpending.1, hconcerns.2 hpending.2⟩ hnot
  · refine ⟨fun hi => (hs.cancelled k i hi).1, fun hi => ?_⟩
    have hover := hs.over hdone hi
    exact ⟨(concerns_scanned hcoord k i).1 (hs.pendingAt k i hi).1, hover.1, hover.2,
      fun hby => (hs.cancelled k i hby).2⟩

end

/-- A process with two calls, one to process 2 and one to process 3, and the reader of process 2. -/
def twoCalls (coordinator : Bool) : Config Bool Unit where
  coordinator := coordinator
  coordinatorProcess := 2
  remoteProcess := fun i => if i then 2 else 3
  process := fun _ => 2
  process_ne := fun _ => by decide

def twoCallsStart : State Bool Unit where
  mustStop := false
  lock := .free
  outstanding := []
  calls := fun _ => .initial fun _ => none
  phase := fun _ => .idle
  pendingAt := fun _ => []
  cancelledBy := fun _ => []

/-- Both calls register; the reader has stored the flag before the second of them. -/
def twoCallsRun : List (Action Bool Unit) :=
  [.register true, .insert true, .claim (), .register false, .store (), .insert false, .scan (),
    .visit true, .visit false, .unlock]

theorem twoCalls_init (coordinator : Bool) : (machine (twoCalls coordinator)).init twoCallsStart :=
  ⟨rfl, rfl, rfl, fun _ => ⟨fun _ => none, fun _ => nofun, rfl⟩, fun _ => ⟨rfl, rfl, rfl⟩⟩

/-- On the leaf both calls are cancelled, on the coordinator only the one to process 2. -/
theorem route_lost_twoCalls :
    (∃ s, (machine (twoCalls false)).Reachable s ∧ s.phase () = .done ∧
      (s.calls true).outstanding = true ∧ ∀ i, ¬Pending (s.calls i)) ∧
    ∃ s, (machine (twoCalls true)).Reachable s ∧ s.phase () = .done ∧ true ∈ s.pendingAt () ∧
      (s.calls true).completion ≠ none ∧ Pending (s.calls false) := by
  constructor
  · obtain ⟨s, hs, hdone, hout⟩ : ∃ s, (machine (twoCalls false)).Reachable s ∧ s.phase () = .done ∧
        (s.calls true).outstanding = true :=
      exists_reachable_of_exec twoCallsRun (twoCalls_init _) (by decide +kernel)
    exact ⟨s, hs, hdone, hout, (route_lost hs).1 () rfl hdone s (.refl s)⟩
  · obtain ⟨s, hs, hdone, hmem, hother⟩ : ∃ s, (machine (twoCalls true)).Reachable s ∧
        s.phase () = .done ∧ true ∈ s.pendingAt () ∧ Pending (s.calls false) :=
      exists_reachable_of_exec twoCallsRun (twoCalls_init _) (by decide +kernel)
    obtain ⟨-, hover, -⟩ := (((route_lost hs).2 rfl ()).2.2 hdone true).2 hmem
    exact ⟨s, hs, hdone, hmem, hover, hother⟩

end Sintra.Messaging.Unblock
