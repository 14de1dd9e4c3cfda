import Sintra.Lib.Machine

/-!
# Tasks deferred to the end of a handler

A handler on a request reader's thread may defer tasks. They are composed to one function, which the
reader moves out and calls at the end of the message, and which is dropped when the thread leaves its
loop. A task is numbered by the order of queueing; what a handler or a task does otherwise is not
modelled, except that it stops readers.
-/

namespace Sintra.Messaging.PostHandlers

open Machine Option

/-- What runs on the thread and may queue: the handlers of a message, or a deferred task. -/
inductive Source
  | handler (message : ℕ)
  | task (t : ℕ)
  deriving DecidableEq

/-- The composed function in `tl_post_handler_function`. -/
inductive Post
  | task (t : ℕ)
  /-- Calls `prev`, then the task. -/
  | after (prev : Post) (t : ℕ)
  deriving DecidableEq

/-- The tasks a composed function calls, in order. -/
def Post.tasks : Post → List ℕ
  | task t => [t]
  | after prev t => prev.tasks ++ [t]

/-- Where the reader thread is in `request_reader_function`. -/
inductive Phase
  | top
  | fetching
  | handler
  /-- In the moved-out function, before the next of the tasks it still calls. -/
  | post (rest : List ℕ)
  | task (t : ℕ) (rest : List ℕ)
  | left
  deriving DecidableEq

structure State where
  phase : Phase := .top
  /-- `m_reader_state` is `READER_STOPPING`. -/
  stopping : Bool := false
  /-- `tl_post_handler_function`, where it is ready. -/
  post : Option Post := none
  /-- The message of the current or last handler. -/
  message : ℕ := 0
  /-- By whom each task was queued. -/
  queued : List Source := []
  /-- The tasks that were called, in order. -/
  ran : List ℕ := []
  /-- The handlers and tasks that have returned. -/
  returned : List Source := []
  /-- A deferred task of the last message has queued a task. -/
  late : Bool := false

inductive Action
  | check
  /-- `fetch_message` gives a message: one to handle, one for which the loop continues at once, or none. -/
  | message
  | skip
  | noMessage
  | runAfterCurrentHandler
  /-- The running handler or task stops a reader: this one or another. -/
  | stopNowait (own : Bool)
  /-- Another thread stops this reader. -/
  | stopped
  | handlerReturns
  | call
  | taskReturns
  | postReturns

namespace State

variable (s : State)

/-- What runs now. -/
def running : Option Source :=
  match s.phase with
  | .handler => some (.handler s.message)
  | .task t _ => some (.task t)
  | _ => none

/-- Source: `managed_process_impl.h`, `run_after_current_handler`; the same code is in
`process_message_reader_impl.h`, `stop_nowait`. -/
def defer (source : Source) : State :=
  { s with
    post := some (match s.post with
      | none => .task s.queued.length
      | some previous => .after previous s.queued.length)
    queued := s.queued ++ [source]
    late := s.late || s.phase ≠ .handler }

/-- The end of the loop and of the thread function. -/
def leave : State := { s with phase := .left, post := none }

/-- Source: `process_message_reader_impl.h`, `request_reader_function`. -/
def step : Action → Option State
  | .check =>
    if s.phase = .top then some (if s.stopping then s.leave else { s with phase := .fetching }) else none
  | .message =>
    if s.phase = .fetching then some { s with phase := .handler, message := s.message + 1 } else none
  | .skip => if s.phase = .fetching then some { s with phase := .top } else none
  | .noMessage => if s.phase = .fetching then some s.leave else none
  | .runAfterCurrentHandler => s.running.map s.defer
  | .stopNowait own =>
    -- in a handler the reply ring's stop is deferred; in a deferred task it is made at once
    s.running.map fun source =>
      let t := { s with stopping := s.stopping || own }
      if s.phase = .handler then t.defer source else t
  | .stopped => some { s with stopping := true }
  | .handlerReturns =>
    if s.phase = .handler then
      some { s with
        phase := s.post.elim .top fun post => .post post.tasks
        post := none
        late := false
        returned := s.returned ++ [.handler s.message] }
    else none
  | .call =>
    match s.phase with
    | .post (t :: rest) => some { s with phase := .task t rest, ran := s.ran ++ [t] }
    | _ => none
  | .taskReturns =>
    match s.phase with
    | .task t rest => some { s with phase := .post rest, returned := s.returned ++ [.task t] }
    | _ => none
  | .postReturns => if s.phase = .post [] then some { s with phase := .top } else none

end State

/-- A request reader at the start of its loop. -/
def machine : Machine State Action where
  init s := s = {}
  step := State.step

/-- The loop is not left after a message whose deferred tasks queued further ones. -/
def NotLast (s : State) : Action → Prop
  | .check => s.stopping = true → s.late = false
  | .noMessage => s.late = false
  | _ => True

instance (s : State) (a : Action) : Decidable (NotLast s a) := by
  cases a <;> unfold NotLast <;> infer_instance

/-! ### The invariant -/

/-- The tasks the moved-out function still calls. -/
def Phase.rest : Phase → List ℕ
  | post rest | task _ rest => rest
  | _ => []

/-- The tasks that wait for the end of a message. -/
def State.waiting (s : State) : List ℕ := s.post.elim [] Post.tasks

structure Inv (s : State) : Prop where
  order : s.ran ++ s.phase.rest ++ s.waiting = List.range s.queued.length
  /-- Who queued a task has returned, or runs while the task waits. -/
  source : ∀ t source, s.queued[t]? = some source →
    source ∈ s.returned ∨ t ∈ s.waiting ∧ s.running = some source
  ready : s.post ≠ none → s.phase = .handler ∨ s.late = true ∧ s.phase ≠ .left

variable {s t : State} {source : Source}

theorem State.waiting_defer : (s.defer source).waiting = s.waiting ++ [s.queued.length] := by
  unfold State.waiting State.defer
  cases s.post <;> rfl

theorem Inv.defer (hs : Inv s) (hrunning : s.running = some source) : Inv (s.defer source) := by
  refine ⟨?_, fun t source' h => ?_, fun _ => ?_⟩
  · rw [State.waiting_defer, ← List.append_assoc]
    simp [State.defer, List.range_succ, ← hs.order]
  · rw [State.waiting_defer]
    rcases Nat.lt_trichotomy t s.queued.length with hlt | rfl | hgt
    · have hold : s.queued[t]? = some source' := (List.getElem?_append_left hlt).symm.trans h
      exact (hs.source t source' hold).imp_right fun ⟨hw, hr⟩ => ⟨List.mem_append_left _ hw, hr⟩
    · obtain rfl := some.inj (List.getElem?_concat_length.symm.trans h)
      exact Or.inr ⟨by simp, hrunning⟩
    · obtain ⟨hlt, -⟩ := List.getElem?_eq_some_iff.mp h
      rw [State.defer, List.length_append, List.length_singleton] at hlt
      omega
  · by_cases h : s.phase = .handler
    · exact Or.inl h
    · refine Or.inr ⟨by simp [State.defer, h], fun hleft => ?_⟩
      have hphase : s.phase = .left := hleft
      simp [State.running, hphase] at hrunning

/-- Where nothing runs, everything that was queued has its source behind it. -/
theorem Inv.idle (hs : Inv s) (hidle : s.running = none) {t : ℕ} (h : s.queued[t]? = some source) :
    source ∈ s.returned := by
  rcases hs.source t source h with h | ⟨-, h⟩
  · exact h
  · rw [hidle] at h
    cases h

/-- What runs returns. -/
theorem Inv.returns (hs : Inv s) {source₀ : Source} (hrunning : s.running = some source₀) {t : ℕ}
    (h : s.queued[t]? = some source) : source ∈ s.returned ++ [source₀] := by
  rcases hs.source t source h with h | ⟨-, h⟩
  · exact List.mem_append_left _ h
  · obtain rfl := mem_unique hrunning h
    exact List.mem_append_right _ (List.mem_singleton_self _)

/-- The loop is left with nothing ready. -/
theorem Inv.leave (hs : Inv s) (hphase : s.phase = .top ∨ s.phase = .fetching)
    (hlate : s.late = false) : Inv s.leave := by
  have hpost : s.post = none := by
    by_contra h
    rcases hs.ready h with h | ⟨h, -⟩
    · rcases hphase with h' | h' <;> rw [h'] at h <;> cases h
    · rw [hlate] at h
      cases h
  have hidle : s.running = none ∧ s.phase.rest = [] := by
    rcases hphase with h | h <;> simp [State.running, Phase.rest, h]
  refine ⟨?_, fun t source h => Or.inl (hs.idle hidle.1 h), fun h => absurd rfl h⟩
  rw [State.leave, ← hs.order, hidle.2, State.waiting, State.waiting, hpost]
  rfl

theorem Inv.handlerReturns (hs : Inv s) (hphase : s.phase = .handler) :
    Inv { s with
      phase := s.post.elim .top fun post => .post post.tasks
      post := none
      late := false
      returned := s.returned ++ [.handler s.message] } := by
  have hrunning : s.running = some (.handler s.message) := by rw [State.running, hphase]
  refine ⟨?_, fun t source h => Or.inl (hs.returns hrunning h), fun h => absurd rfl h⟩
  rw [← hs.order, hphase]
  unfold State.waiting
  cases s.post <;> simp [Phase.rest]

/-- The thread goes on, with no handler running. -/
theorem Inv.late (hs : Inv s) {p : Phase} (hphase : s.phase ≠ .handler) (hleft : p ≠ .left) :
    s.post ≠ none → p = .handler ∨ s.late = true ∧ p ≠ .left :=
  fun h => Or.inr ⟨((hs.ready h).resolve_left hphase).1, hleft⟩

/-- The thread goes on, with nothing running. -/
theorem Inv.move (hs : Inv s) {p p₀ : Phase} {m : ℕ} (hphase : s.phase = p₀) (hp : p.rest = p₀.rest)
    (hidle : State.running { s with phase := p₀ } = none) (hleft : p ≠ .left) :
    Inv { s with phase := p, message := m } := by
  subst hphase
  refine ⟨?_, fun t source h => Or.inl (hs.idle hidle h), hs.late (fun h => ?_) hleft⟩
  · rw [← hs.order, ← hp]
    rfl
  · simp [State.running, h] at hidle

theorem inv_step {a : Action} (hs : Inv s) (ha : NotLast s a) (ht : s.step a = some t) : Inv t := by
  cases a with
  | check =>
    obtain ⟨hphase, rfl⟩ := of_guard ht
    split
    · next hstop => exact hs.leave (Or.inl hphase) (ha hstop)
    · exact hs.move hphase rfl rfl nofun
  | message | skip | postReturns =>
    obtain ⟨hphase, rfl⟩ := of_guard ht
    exact hs.move hphase rfl rfl nofun
  | noMessage =>
    obtain ⟨hphase, rfl⟩ := of_guard ht
    exact hs.leave (Or.inr hphase) ha
  | runAfterCurrentHandler =>
    obtain ⟨source, hrunning, rfl⟩ := map_eq_some_iff.mp ht
    exact hs.defer hrunning
  | stopNowait own =>
    obtain ⟨source, hrunning, rfl⟩ := map_eq_some_iff.mp ht
    have hstop : Inv { s with stopping := s.stopping || own } := { hs with }
    split
    · exact hstop.defer hrunning
    · exact hstop
  | stopped =>
    obtain rfl := some.inj ht
    exact { hs with }
  | handlerReturns =>
    obtain ⟨hphase, rfl⟩ := of_guard ht
    exact hs.handlerReturns hphase
  | call =>
    simp only [State.step] at ht
    split at ht
    · next n rest hphase =>
      obtain rfl := some.inj ht
      have hidle : s.running = none := by rw [State.running, hphase]
      refine ⟨?_, fun t source h => Or.inl (hs.idle hidle h), hs.late (by simp [hphase]) nofun⟩
      rw [← hs.order, hphase]
      simp [Phase.rest, State.waiting]
    · cases ht
  | taskReturns =>
    simp only [State.step] at ht
    split at ht
    · next n rest hphase =>
      obtain rfl := some.inj ht
      have hrunning : s.running = some (.task n) := by rw [State.running, hphase]
      refine ⟨?_, fun t source h => Or.inl (hs.returns hrunning h), hs.late (by simp [hphase]) nofun⟩
      rw [← hs.order, hphase]
      rfl
    · cases ht

/-- The tasks run in the order of queueing, each once and after its source has returned, and before the
loop is left. -/
theorem deferred_tasks_run (h : machine.ReachableUnder NotLast s) :
    s.ran = List.range s.ran.length ∧
    (∀ t ∈ s.ran, ∃ source ∈ s.returned, s.queued[t]? = some source) ∧
    (s.phase = .left → s.ran = List.range s.queued.length) := by
  have hs : Inv s := by
    refine h.invariant ?_ fun s a t _ hs ha ht => inv_step hs ha ht
    rintro _ rfl
    exact ⟨rfl, nofun, nofun⟩
  have hnodup : (s.ran ++ s.phase.rest ++ s.waiting).Nodup := hs.order ▸ List.nodup_range
  refine ⟨?_, fun t ht => ?_, fun hleft => ?_⟩
  · have hlen := congrArg List.length hs.order
    have htake := congrArg (List.take s.ran.length) hs.order
    simp only [List.length_append, List.length_range] at hlen
    rwa [List.append_assoc, List.take_left, List.take_range, Nat.min_eq_left (by omega)] at htake
  · have hlt : t ∈ List.range s.queued.length := hs.order ▸ by simp [ht]
    have hget := List.getElem?_eq_getElem (List.mem_range.mp hlt)
    rcases hs.source t _ hget with h | ⟨h, -⟩
    · exact ⟨_, h, hget⟩
    · exact absurd rfl ((List.nodup_append.mp hnodup).2.2 t (List.mem_append_left _ ht) t h)
  · have hpost : s.post = none := by
      by_contra h
      rcases hs.ready h with h | ⟨-, h⟩
      · rw [hleft] at h
        cases h
      · exact h hleft
    rw [← hs.order, hleft, State.waiting, hpost]
    simp [Phase.rest]

/-- Two deferred tasks in one handler that stops its reader. -/
theorem deferred_tasks_run_pair :
    ∃ s, machine.ReachableUnder NotLast s ∧ s.phase = .left ∧ s.ran = List.range s.queued.length := by
  obtain ⟨s, hs, hleft⟩ := exists_reachableUnder_of_exec (M := machine) (P := NotLast)
    (Q := fun s => s.phase = .left)
    [.check, .message, .runAfterCurrentHandler, .stopNowait true, .handlerReturns, .call, .taskReturns,
      .call, .taskReturns, .postReturns, .check] rfl (by decide +kernel)
  exact ⟨s, hs, hleft, (deferred_tasks_run hs).2.2 hleft⟩

/-- A deferred task queues another one and stops its reader: the loop is left and the task dropped. -/
theorem deferred_task_discarded :
    ∃ s, machine.Reachable s ∧ s.phase = .left ∧ s.queued[2]? = some (.task 0) ∧ 2 ∉ s.ran :=
  exists_reachable_of_exec (M := machine)
    [.check, .message, .runAfterCurrentHandler, .stopNowait true, .handlerReturns, .call,
      .runAfterCurrentHandler, .taskReturns, .call, .taskReturns, .postReturns, .check] rfl
    (by decide +kernel)

end Sintra.Messaging.PostHandlers
