import Sintra.Process.Registry

/-!
# What one step of the registry does

The steps of `Registry` as seen by the books, the waiters and the notifications. `Move` has one
constructor for each kind of change; which operation makes it is left out but for the unpublication
of a process, and so is what it does to the groups and their mutex. `step_move` is the only place
where the step function is taken apart.
-/

namespace Sintra.Process.Registry

open Function

open Coordinator (Instance managedProcess ReaderIdentity mprocId)

/-! ### What a thread has still to do -/

/-- The answers the thread-local variables stand for. -/
def Deferred.completions (d : Deferred) (value : Option Instance) : List Completion :=
  d.commonFunctionIid.elim [] fun commonFunctionIid =>
    d.additionalPiids.map fun waiter => ⟨commonFunctionIid, waiter, value⟩

namespace ThreadState

/-- The answers the thread has still to write. -/
def owed (t : ThreadState) : List Completion :=
  match t.task with
  | .returning value _ _ => t.deferred.completions value
  | .emitDirect value => t.deferred.completions (some value)
  | .answering commonFunctionIid waiters value =>
    waiters.map fun waiter => ⟨commonFunctionIid, waiter, some value⟩
  | .ready | .notifying _ => []

/-- The notifications the thread has still to place, if it holds
`m_publication_notifications_mutex`. -/
def events (t : ThreadState) : Option (List Notification) :=
  match t.task with
  | .notifying events => some events
  | _ => none

/-- The thread-local variables are in use from the end of a publication to the answers only. -/
structure Tidy (t : ThreadState) : Prop where
  unused : match t.task with
    | .returning .. | .emitDirect _ => t.deferred.commonFunctionIid = none → t.deferred = .empty
    | .ready | .answering .. | .notifying _ => t.deferred = .empty
  saved : ∀ saved, t.cont = .restore saved → saved = .empty

variable {t : ThreadState}

theorem idle_iff : t.idle = true ↔ t.task = .ready ∧ t.cont = .done := by
  obtain ⟨task, cont, deferred⟩ := t
  cases task <;> cases cont <;> simp [idle]

/-- The test at the start of an operation was passed. -/
theorem of_not_busy {q : Prop} (h : ¬((!t.idle) = true ∨ q)) :
    t.task = .ready ∧ t.cont = .done ∧ ¬q := by
  simpa [idle_iff, and_assoc] using h

theorem Tidy.deferred_eq (h : t.Tidy) (hready : t.task = .ready) :
    t.deferred = .empty := by
  obtain ⟨task, cont, deferred⟩ := t
  subst hready
  exact h.unused

theorem owed_of_task {task : Task} (h : t.task = task) :
    t.owed = owed { t with task := task } := by
  rw [← h]

theorem events_of_task {task : Task} (h : t.task = task) :
    t.events = events { t with task := task } := by
  rw [← h]

end ThreadState

theorem completions_ofWaited (w : Option Waited) (iid : Instance) :
    (Deferred.ofWaited w).completions (some iid) = w.elim [] (·.completions iid) := by
  cases w <;> rfl

/-! ### Moves -/

variable {κ : Type*} [DecidableEq κ]

/-- One thread goes on, with `x` as its new state. -/
structure Turn (s t : State κ) (th : Thread κ) (x : ThreadState) : Prop where
  threads : t.threads = update s.threads th x
  tidy : x.Tidy
  drawn : s.drawn ≤ t.drawn

/-- The claim the thread is in stays the same or ends. -/
def KeepsClaim (x x' : ThreadState) : Prop :=
  x'.cont.claimant = none ∨ x'.cont.claimant = x.cont.claimant

/-- A thread whose operation is over, or may go on in the coordinator. -/
def MayPublish (s : State κ) (th : Thread κ) (iid : Instance) : Prop :=
  (s.threads th).task = .ready ∧ s.notificationsMutex = none ∧
    (iid.process = mprocId ∨ th = .service ∧ (s.threads th).cont.claimant = none)

/-- What a step does. -/
inductive Move (a : Action κ) (s t : State κ) : Prop
  /-- Nothing but the thread changes, and what it owes stays. -/
  | quiet (th : Thread κ) (x : ThreadState) (turn : Turn s t th x)
      (claim : KeepsClaim (s.threads th) x) (owed : x.owed = (s.threads th).owed)
      (events : x.events = (s.threads th).events) (books : t.books = s.books)
      (waits : t.waits = s.waits) (news : t.news = s.news)
      (mutex : t.notificationsMutex = s.notificationsMutex)
  | publish (th : Thread κ) (x : ThreadState) (turn : Turn s t th x)
      (claim : KeepsClaim (s.threads th) x) (iid : Instance) (entry : TransceiverPublication)
      (may : MayPublish s th iid)
      (owed : x.owed = (s.waits.waited entry.name).elim [] (·.completions iid))
      (events : x.events = none) (books : s.books.publishTransceiver iid entry = some t.books)
      (waits : t.waits = s.waits.take entry.name iid)
      (news : t.news = s.news.announce ⟨entry.typeId, iid, entry.name⟩
        (s.books.registry iid.process).isNone)
      (mutex : t.notificationsMutex = none)
  | unpublishInstance (th : Thread κ) (x : ThreadState) (turn : Turn s t th x)
      (claim : KeepsClaim (s.threads th) x) (iid : Instance) (publication : TransceiverPublication)
      (published : s.books.publication iid = some publication)
      (ready : (s.threads th).task = .ready) (free : s.notificationsMutex = none)
      (transceiver : iid ≠ managedProcess iid.process)
      (owed : x.owed = [])
      (events : x.events = some [.unpublished ⟨publication.typeId, iid, publication.name⟩])
      (books : t.books = s.books.unpublishInstance iid publication) (waits : t.waits = s.waits)
      (news : t.news = s.news) (mutex : t.notificationsMutex = some th)
  | unpublishProcess (th : Thread κ) (x : ThreadState) (turn : Turn s t th x)
      (claim : KeepsClaim (s.threads th) x) (p : InstanceId) (publication : TransceiverPublication)
      (action : ∃ expectedIdentity, a = .unpublish th (managedProcess p) expectedIdentity ∧
        s.books.publicationOf (managedProcess p) expectedIdentity = some publication)
      (ready : (s.threads th).task = .ready) (free : s.notificationsMutex = none)
      (owed : x.owed = [])
      (events : x.events = some (.unpublished ⟨publication.typeId, managedProcess p, publication.name⟩
        :: ((s.news.ready p).filter fun delayed => delayed.instanceId.process ≠ p).map .published))
      (books : t.books = s.books.unpublishProcess p) (waits : t.waits = s.waits)
      (news : t.news = s.news.finalize p) (mutex : t.notificationsMutex = some th)
  | claim (x : ThreadState) (turn : Turn s t .service x) (p : InstanceId) (occurrence : ℕ)
      (claimant : x.cont.claimant = some p) (own : p ≠ mprocId)
      (unknown : s.books.registry p = none) (owed : x.owed = (s.threads .service).owed)
      (events : x.events = (s.threads .service).events) (books : t.books = s.books.attach p occurrence)
      (waits : t.waits = s.waits) (news : t.news = s.news)
      (mutex : t.notificationsMutex = s.notificationsMutex)
  | withdraw (th : Thread κ) (x : ThreadState) (turn : Turn s t th x) (p : InstanceId)
      (claimant : (s.threads th).cont.claimant = some p) (ends : x.cont.claimant = none)
      (owed : x.owed = (s.threads th).owed) (events : x.events = (s.threads th).events)
      (books : t.books = s.books.withdraw p) (waits : t.waits = s.waits) (news : t.news = s.news)
      (mutex : t.notificationsMutex = s.notificationsMutex)
  | register (p : InstanceId) (threads : t.threads = s.threads) (books : t.books = s.books.register p)
      (waits : t.waits = s.waits) (news : t.news = s.news)
      (drawn : t.drawn = s.drawn)
      (mutex : t.notificationsMutex = s.notificationsMutex)
  /-- An immediate result is written. -/
  | result (th : Thread κ) (x : ThreadState) (turn : Turn s t th x)
      (claim : KeepsClaim (s.threads th) x) (receiver functionIid : Instance)
      (value : Option Instance) (owed : x.owed = (s.threads th).owed)
      (events : x.events = (s.threads th).events) (books : t.books = s.books)
      (waits : t.waits = s.waits.write (.result receiver functionIid value)) (news : t.news = s.news)
      (mutex : t.notificationsMutex = s.notificationsMutex)
  | defer (assignedName : String) (sender functionIid : Instance) (threads : t.threads = s.threads)
      (free : s.books.names assignedName = none) (books : t.books = s.books)
      (waits : t.waits = s.waits.defer assignedName sender functionIid (makeInstanceId s.drawn))
      (news : t.news = s.news)
      (drawn : t.drawn = if (s.waits.waited assignedName).isSome then s.drawn else s.drawn + 1)
      (mutex : t.notificationsMutex = s.notificationsMutex)
  /-- One of the answers the thread owes is written. -/
  | complete (th : Thread κ) (x : ThreadState) (turn : Turn s t th x)
      (claim : KeepsClaim (s.threads th) x) (c : Completion) (owed : (s.threads th).owed = c :: x.owed)
      (events : x.events = (s.threads th).events) (books : t.books = s.books)
      (waits : t.waits = s.waits.write (.completion c)) (news : t.news = s.news)
      (mutex : t.notificationsMutex = s.notificationsMutex)
  | beginInitialization (p : InstanceId) (threads : t.threads = s.threads) (books : t.books = s.books)
      (waits : t.waits = s.waits)
      (news : t.news = { s.news with initializing := insert p s.news.initializing })
      (drawn : t.drawn = s.drawn)
      (mutex : t.notificationsMutex = s.notificationsMutex)
  | finalize (p : InstanceId) (threads : t.threads = s.threads) (free : s.notificationsMutex = none)
      (books : t.books = s.books) (waits : t.waits = s.waits)
      (news : t.news = (s.news.finalize p).emit ((s.news.ready p).map .published))
      (drawn : t.drawn = s.drawn)
      (mutex : t.notificationsMutex = s.notificationsMutex)
  /-- One of the notifications of an unpublication is placed. -/
  | emit (th : Thread κ) (x : ThreadState) (turn : Turn s t th x)
      (claim : KeepsClaim (s.threads th) x) (event : Notification) (rest : List Notification)
      (owed : x.owed = (s.threads th).owed) (events : (s.threads th).events = some (event :: rest))
      (left : x.events = some rest) (books : t.books = s.books) (waits : t.waits = s.waits)
      (news : t.news = s.news.emit [event]) (mutex : t.notificationsMutex = s.notificationsMutex)
  /-- The notifications of an unpublication are placed. -/
  | release (th : Thread κ) (x : ThreadState) (turn : Turn s t th x)
      (claim : KeepsClaim (s.threads th) x) (owed : x.owed = (s.threads th).owed)
      (events : (s.threads th).events = some []) (left : x.events = none) (books : t.books = s.books)
      (waits : t.waits = s.waits) (news : t.news = s.news) (mutex : t.notificationsMutex = none)

/-! ### Every step is a move -/

section

variable {a : Action κ} {s t : State κ} {th : Thread κ}

/-- A step of one thread that leaves it where it was. -/
theorem Turn.refl (htidy : (s.threads th).Tidy) : Turn s s th (s.threads th) :=
  ⟨(update_eq_self th s.threads).symm, htidy, Nat.le_refl _⟩

theorem Move.refl (htidy : (s.threads .service).Tidy) : Move a s s :=
  .quiet .service (s.threads .service) (.refl htidy) (.inr rfl) rfl rfl rfl rfl rfl rfl

variable {typeId : ℕ} {iid : Instance} {cont : Cont} {sender functionIid : Instance} {p : InstanceId}
    {groups : String → Option Group} {drawn : ℕ} {mutex : Option (Thread κ)}

/-- The state with other groups. -/
def State.regrouped (s : State κ) (groups : String → Option Group) (drawn : ℕ)
    (mutex : Option (Thread κ)) : State κ :=
  { s with groups := groups, drawn := drawn, groupsMutex := mutex }

variable {entry : TransceiverPublication}

/-- An accepted publication. -/
theorem publishTransceiver_move {task : Task}
    (h : (s.regrouped groups drawn mutex).publishTransceiver th iid entry task cont = some t)
    (hdrawn : s.drawn ≤ drawn) (may : MayPublish s th iid)
    (hcont : cont.claimant = none ∨ cont.claimant = (s.threads th).cont.claimant)
    (hrestore : ∀ saved, cont = .restore saved → saved = .empty)
    (htask : (∃ sender functionIid, task = .returning (some iid) sender functionIid) ∨
      task = .emitDirect iid) : Move a s t := by
  obtain ⟨books, hpub, rfl⟩ := Option.map_eq_some_iff.1 h
  have htidy : (⟨task, cont, .ofWaited (s.waits.waited entry.name)⟩ : ThreadState).Tidy := by
    have hempty : (Deferred.ofWaited (s.waits.waited entry.name)).commonFunctionIid = none →
        Deferred.ofWaited (s.waits.waited entry.name) = .empty := by
      cases s.waits.waited entry.name with
      | none => exact fun _ => rfl
      | some w => exact nofun
    refine ⟨?_, hrestore⟩
    obtain ⟨_, _, rfl⟩ | rfl := htask
    all_goals exact hempty
  refine .publish th _ ⟨rfl, htidy, hdrawn⟩ hcont iid entry may ?_ ?_ hpub rfl rfl may.2.1
  · rw [← completions_ofWaited]
    obtain ⟨_, _, rfl⟩ | rfl := htask <;> rfl
  · obtain ⟨_, _, rfl⟩ | rfl := htask <;> rfl

section

variable (hready : (s.threads th).task = .ready)

include hready

/-- The publication of a new group. -/
theorem publishProcessGroup_move {name : String}
    (h : (s.regrouped groups s.drawn mutex).publishProcessGroup th name typeId cont = some t)
    (hfree : s.notificationsMutex = none)
    (hcont : cont.claimant = none ∨ cont.claimant = (s.threads th).cont.claimant)
    (hrestore : ∀ saved, cont ≠ .restore saved) : Move a s t :=
  publishTransceiver_move h (Nat.le_succ s.drawn) ⟨hready, hfree, .inl rfl⟩ hcont
    (fun saved hsaved => absurd hsaved (hrestore saved)) (.inr rfl)

variable (htidy : (s.threads th).Tidy)

include htidy

/-- The section of an unpublication that is not one of a process. -/
theorem unpublishInstance_move {publication : TransceiverPublication}
    (hfree : s.notificationsMutex = none) (hpub : s.books.publication iid = some publication)
    (htransceiver : iid ≠ managedProcess iid.process)
    (hcont : cont.claimant = none ∨ cont.claimant = (s.threads th).cont.claimant)
    (hrestore : ∀ saved, cont ≠ .restore saved) :
    Move a s ((s.regrouped groups s.drawn mutex).unpublishInstance th iid publication cont) :=
  .unpublishInstance th _
    ⟨rfl, ⟨htidy.deferred_eq hready, fun saved h => absurd h (hrestore saved)⟩, le_rfl⟩ hcont iid
    publication hpub hready hfree htransceiver rfl rfl rfl rfl rfl rfl

/-- A thread that is ready goes on to something else. -/
theorem Move.of_ready (hdrawn : s.drawn ≤ drawn) (hrestore : ∀ saved, cont ≠ .restore saved)
    (hcont : cont.claimant = none ∨ cont.claimant = (s.threads th).cont.claimant) :
    Move a s ((s.regrouped groups drawn mutex).setThread th ⟨.ready, cont, (s.threads th).deferred⟩) :=
  .quiet th _ ⟨rfl, ⟨htidy.deferred_eq hready, fun saved h => absurd h (hrestore saved)⟩, hdrawn⟩ hcont
    (ThreadState.owed_of_task hready).symm (ThreadState.events_of_task hready).symm rfl rfl rfl rfl

variable {updates : List GroupUpdate}

theorem ensureGroup_move {g : String} {todo : List String}
    (hclaim : (s.threads th).cont.claimant = some p)
    (h : s.ensureGroup th p g todo updates typeId = some t) : Move a s t := by
  unfold State.ensureGroup at h
  cases hgroup : s.groups g with
  | some _ =>
    simp only [hgroup] at h
    cases h
    exact .of_ready hready htidy le_rfl nofun (.inr hclaim.symm)
  | none =>
    simp only [hgroup, Option.ite_none_left_eq_some, Option.some.injEq,
      Option.not_isSome_iff_eq_none] at h
    obtain ⟨hfree, rfl⟩ := h
    cases hpub : s.publishProcessGroup th g typeId (.joining p todo ((g, true) :: updates)) with
    | none =>
      exact .of_ready hready htidy (Nat.le_succ _) nofun (.inr hclaim.symm)
    | some t =>
      exact publishProcessGroup_move hready hpub hfree (.inr hclaim.symm) nofun

theorem rollbackUpdate_move {update : GroupUpdate} (hclaim : (s.threads th).cont.claimant = some p)
    (h : s.rollbackUpdate th p update updates = some t) : Move a s t := by
  unfold State.rollbackUpdate at h
  split at h
  · next group _ _ _ =>
      split at h
      · next publication _ hpub =>
          rw [Option.ite_none_left_eq_some, Option.some.injEq, Option.not_isSome_iff_eq_none] at h
          obtain ⟨hfree, rfl⟩ := h
          exact unpublishInstance_move hready htidy hfree (Books.publicationOf_eq_some hpub).1
            (makeInstanceId_ne_managedProcess _ _) (.inr hclaim.symm) nofun
      · cases h
        exact .of_ready hready htidy le_rfl nofun (.inr hclaim.symm)
  · cases h
    exact .of_ready hready htidy le_rfl nofun (.inr hclaim.symm)

theorem resume_move (h : s.resume th typeId = some t) : Move a s t := by
  have hd := htidy.deferred_eq hready
  unfold State.resume at h
  cases hcont : (s.threads th).cont
  all_goals
    have hclaim := congrArg Cont.claimant hcont
    rw [hcont] at h
  case done => cases h
  case restore saved =>
    cases h
    have hsaved : saved = (s.threads th).deferred := (htidy.saved saved hcont).trans hd.symm
    subst hsaved
    exact .of_ready hready htidy le_rfl nofun (.inl rfl)
  case releaseGroups =>
    cases h
    exact .of_ready hready htidy le_rfl nofun (.inl rfl)
  case claimed p =>
    cases h
    by_cases hinit : p ∈ s.news.initializing
    · rw [if_pos hinit]
      exact .of_ready hready htidy le_rfl nofun (.inr hclaim.symm)
    · rw [if_neg hinit]
      exact .of_ready hready htidy le_rfl nofun (.inr hclaim.symm)
  case attaching p =>
    obtain ⟨-, h⟩ := Option.ite_none_left_eq_some.1 h
    cases h
    exact .of_ready hready htidy le_rfl nofun (.inr hclaim.symm)
  case joining p todo updates =>
    cases todo with
    | nil =>
      cases h
      exact .of_ready hready htidy le_rfl nofun (.inl rfl)
    | cons g todo => exact ensureGroup_move hready htidy hclaim h
  case rollback p updates =>
    cases updates with
    | nil =>
      cases h
      exact .of_ready hready htidy le_rfl nofun (.inr hclaim.symm)
    | cons update updates => exact rollbackUpdate_move hready htidy hclaim h
  case withdraw p =>
    cases h
    exact .withdraw th _ ⟨rfl, ⟨hd, nofun⟩, Nat.le_refl _⟩ p hclaim rfl
      (ThreadState.owed_of_task hready).symm (ThreadState.events_of_task hready).symm rfl rfl rfl rfl

end

theorem rpcReturn_move {value : Option Instance} (htidy : (s.threads th).Tidy)
    (htask : (s.threads th).task = .returning value sender functionIid) :
    Move a s (s.rpcReturn th value sender functionIid) := by
  have howed := ThreadState.owed_of_task htask
  have hevents := ThreadState.events_of_task htask
  unfold State.rpcReturn
  split
  · next commonFunctionIid waiter waiters hd =>
      rw [hd] at howed
      exact .complete th _ ⟨rfl, ⟨nofun, htidy.saved⟩, Nat.le_refl _⟩ (.inr rfl)
        ⟨commonFunctionIid, waiter, value⟩ howed hevents.symm rfl rfl rfl rfl
  · next commonFunctionIid hd =>
      rw [hd] at howed
      exact .result th _ ⟨rfl, ⟨rfl, htidy.saved⟩, Nat.le_refl _⟩ (.inr rfl) sender functionIid value
        howed.symm hevents.symm rfl rfl rfl rfl
  · next waiters hd =>
      rw [hd] at howed
      exact .result th _ ⟨rfl, ⟨rfl, htidy.saved⟩, Nat.le_refl _⟩ (.inr rfl) sender functionIid value
        howed.symm hevents.symm rfl rfl rfl rfl

theorem proceed_move (htidy : (s.threads th).Tidy) (h : s.proceed th typeId = some t) :
    Move a s t := by
  unfold State.proceed at h
  have hunused := htidy.unused
  cases htask : (s.threads th).task
  all_goals
    have howed := ThreadState.owed_of_task htask
    have hevents := ThreadState.events_of_task htask
    rw [htask] at h hunused
  case ready => exact resume_move htask htidy h
  case returning value sender functionIid =>
    cases h
    exact rpcReturn_move htidy htask
  case emitDirect value =>
    dsimp only at h
    split at h
    · next commonFunctionIid waiters hd =>
        cases h
        rw [hd] at howed
        exact .quiet th _ ⟨rfl, ⟨rfl, htidy.saved⟩, Nat.le_refl _⟩ (.inr rfl) howed.symm hevents.symm rfl
          rfl rfl rfl
    · next waiters hd =>
        cases h
        have hempty := hunused (by rw [hd])
        rw [hd] at howed
        exact .quiet th _ ⟨rfl, ⟨hempty, htidy.saved⟩, Nat.le_refl _⟩ (.inr rfl) howed.symm
          hevents.symm rfl rfl rfl rfl
  case answering commonFunctionIid waiters value =>
    cases waiters with
    | nil =>
      cases h
      exact .quiet th _ ⟨rfl, ⟨hunused, htidy.saved⟩, Nat.le_refl _⟩ (.inr rfl) howed.symm
        hevents.symm rfl rfl rfl rfl
    | cons waiter waiters =>
      cases h
      exact .complete th _ ⟨rfl, ⟨hunused, htidy.saved⟩, Nat.le_refl _⟩ (.inr rfl)
        ⟨commonFunctionIid, waiter, some value⟩ howed hevents.symm rfl rfl rfl rfl
  case notifying events =>
    cases events with
    | nil =>
      cases h
      exact .release th _ ⟨rfl, ⟨hunused, htidy.saved⟩, Nat.le_refl _⟩ (.inr rfl) howed.symm hevents
        rfl rfl rfl rfl rfl
    | cons event events =>
      cases h
      exact .emit th _ ⟨rfl, ⟨hunused, htidy.saved⟩, Nat.le_refl _⟩ (.inr rfl) event events
        howed.symm hevents rfl rfl rfl rfl rfl

variable (htidy : ∀ th, (s.threads th).Tidy)

include htidy

theorem publish_move (h : s.publish iid entry sender functionIid = some t) : Move a s t := by
  rw [State.publish, Option.ite_none_left_eq_some, Option.some.injEq] at h
  obtain ⟨hguard, rfl⟩ := h
  obtain ⟨hready, hdone, hfree⟩ := ThreadState.of_not_busy hguard
  have hd := (htidy .service).deferred_eq hready
  cases hpub : s.publishTransceiver .service iid entry
      (.returning (some iid) sender functionIid) .done with
  | none =>
    rw [Option.getD_none, hd]
    exact .quiet .service _ ⟨rfl, ⟨fun _ => rfl, nofun⟩, Nat.le_refl _⟩ (.inl rfl)
      (ThreadState.owed_of_task hready).symm (ThreadState.events_of_task hready).symm rfl rfl rfl rfl
  | some t =>
    refine publishTransceiver_move hpub le_rfl ⟨hready, Option.not_isSome_iff_eq_none.1 hfree,
      .inr ⟨rfl, ?_⟩⟩ (.inl rfl) nofun (.inl ⟨sender, functionIid, rfl⟩)
    rw [hdone]
    rfl

theorem publishLocal_move {assignedName : String}
    (h : s.publishLocal th typeId iid assignedName = some t) : Move a s t := by
  rw [State.publishLocal, Option.ite_none_left_eq_some, Option.some.injEq] at h
  obtain ⟨hguard, rfl⟩ := h
  obtain ⟨hready, -, hguard⟩ := ThreadState.of_not_busy hguard
  obtain ⟨hfree, hown⟩ : s.notificationsMutex = none ∧ iid.process = mprocId := by simpa using hguard
  have hd := (htidy th).deferred_eq hready
  have hsaved : ∀ saved, Cont.restore (s.threads th).deferred = .restore saved → saved = .empty := by
    rintro _ ⟨⟩
    exact hd
  cases hpub : s.publishTransceiver th iid ⟨typeId, assignedName, .unbound⟩ (.emitDirect iid)
      (.restore (s.threads th).deferred) with
  | none =>
    exact .quiet th _ ⟨rfl, ⟨rfl, hsaved⟩, Nat.le_refl _⟩ (.inl rfl)
      (ThreadState.owed_of_task hready).symm (ThreadState.events_of_task hready).symm rfl rfl rfl rfl
  | some t =>
    exact publishTransceiver_move hpub le_rfl ⟨hready, hfree, .inl hown⟩ (.inl rfl) hsaved (.inr rfl)

theorem unpublish_move {expectedIdentity : Option ReaderIdentity}
    (h : s.unpublish th iid expectedIdentity = some t) :
    Move (.unpublish th iid expectedIdentity) s t := by
  rw [State.unpublish, Option.ite_none_left_eq_some] at h
  obtain ⟨hguard, h⟩ := h
  obtain ⟨hready, -, hfree⟩ := ThreadState.of_not_busy hguard
  rw [Option.not_isSome_iff_eq_none] at hfree
  have hd := (htidy th).deferred_eq hready
  cases hpub : s.books.publicationOf iid expectedIdentity with
  | none =>
    simp only [hpub] at h
    cases h
    exact .refl (htidy .service)
  | some publication =>
    simp only [hpub] at h
    have hpublished := (Books.publicationOf_eq_some hpub).1
    by_cases hmanaged : iid = managedProcess iid.process
    · rw [if_pos hmanaged, Option.ite_none_left_eq_some, Option.some.injEq] at h
      obtain ⟨-, rfl⟩ := h
      refine .unpublishProcess th _ ⟨rfl, ⟨hd, nofun⟩, Nat.le_refl _⟩ (.inl rfl) iid.process publication
        ⟨expectedIdentity, ?_, ?_⟩ hready hfree rfl rfl rfl rfl rfl rfl
      · rw [← hmanaged]
      · rw [← hmanaged, hpub]
    · rw [if_neg hmanaged, Option.some.injEq] at h
      subst h
      exact unpublishInstance_move hready (htidy th) hfree hpublished hmanaged (.inl rfl) nofun

theorem makeProcessGroup_move {name : String} (h : s.makeProcessGroup th name typeId = some t) :
    Move a s t := by
  rw [State.makeProcessGroup, Option.ite_none_left_eq_some] at h
  obtain ⟨hguard, h⟩ := h
  obtain ⟨hready, -, hguard⟩ := ThreadState.of_not_busy hguard
  have hfree := Option.not_isSome_iff_eq_none.1 fun h => hguard (.inr h)
  cases hgroup : s.groups name with
  | some _ =>
    simp only [hgroup] at h
    cases h
    exact .refl (htidy .service)
  | none =>
    simp only [hgroup] at h
    cases h
    cases hpub : { s with groupsMutex := some th }.publishProcessGroup th name typeId
        .releaseGroups with
    | none =>
      exact .quiet .service _ ⟨(update_eq_self _ s.threads).symm, htidy .service,
        Nat.le_succ _⟩ (.inr rfl) rfl rfl rfl rfl rfl rfl
    | some t =>
      exact publishProcessGroup_move hready hpub hfree (.inl rfl) nofun

theorem claim_move {occurrence : ℕ} (h : s.claim p occurrence = some t) : Move a s t := by
  rw [State.claim, Option.ite_none_left_eq_some] at h
  obtain ⟨hguard, h⟩ := h
  obtain ⟨hready, -, hown⟩ := ThreadState.of_not_busy hguard
  by_cases hknown : (s.books.registry p).isSome = true
  · rw [if_pos hknown, Option.some.injEq] at h
    subst h
    exact .refl (htidy .service)
  · rw [if_neg hknown, Option.some.injEq] at h
    subst h
    exact .claim _ ⟨rfl, ⟨(htidy .service).deferred_eq hready, nofun⟩, Nat.le_refl _⟩ p occurrence
      rfl hown (Option.not_isSome_iff_eq_none.1 hknown) (ThreadState.owed_of_task hready).symm
      (ThreadState.events_of_task hready).symm rfl rfl rfl rfl

theorem waitForInstance_move {assignedName : String}
    (h : s.waitForInstance assignedName sender functionIid = some t) : Move a s t := by
  rw [State.waitForInstance, Option.ite_none_left_eq_some] at h
  obtain ⟨-, h⟩ := h
  cases hname : s.books.names assignedName with
  | some iid =>
    simp only [hname] at h
    cases h
    exact .result .service (s.threads .service) ⟨(update_eq_self _ s.threads).symm,
      htidy .service, Nat.le_refl _⟩ (.inr rfl) sender functionIid (some iid) rfl rfl rfl rfl rfl rfl
  | none =>
    simp only [hname] at h
    cases h
    exact .defer assignedName sender functionIid rfl hname rfl rfl rfl rfl rfl

/-- Every step is a move. -/
theorem step_move (h : s.step a = some t) : Move a s t := by
  cases a with
  | publish iid entry sender functionIid => exact publish_move htidy h
  | publishLocal th typeId iid assignedName => exact publishLocal_move htidy h
  | unpublish th iid expectedIdentity => exact unpublish_move htidy h
  | makeProcessGroup th name typeId => exact makeProcessGroup_move htidy h
  | claim p occurrence => exact claim_move htidy h
  | waitForInstance assignedName sender functionIid => exact waitForInstance_move htidy h
  | register p =>
    cases h
    exact .register p rfl rfl rfl rfl rfl rfl
  | beginInitialization p =>
    cases h
    exact .beginInitialization p rfl rfl rfl rfl rfl rfl
  | markInitializationComplete p =>
    change s.markInitializationComplete p = some t at h
    rw [State.markInitializationComplete, Option.ite_none_left_eq_some, Option.some.injEq,
      Option.not_isSome_iff_eq_none] at h
    obtain ⟨hfree, rfl⟩ := h
    exact .finalize p rfl hfree rfl rfl rfl rfl rfl
  | proceed th typeId => exact proceed_move (htidy th) h

/-- A move leaves every thread tidy. -/
theorem Move.tidy (hmove : Move a s t) (th : Thread κ) :
    (t.threads th).Tidy := by
  have hturn : ∀ {th' : Thread κ} {x : ThreadState}, Turn s t th' x → (t.threads th).Tidy := by
    intro th' x turn
    rw [turn.threads]
    obtain rfl | hth := eq_or_ne th th'
    · rw [update_self]
      exact turn.tidy
    · rw [update_of_ne hth]
      exact htidy th
  cases hmove with
  | quiet _ _ turn | publish _ _ turn | unpublishInstance _ _ turn | unpublishProcess _ _ turn
  | claim _ turn | withdraw _ _ turn | result _ _ turn | complete _ _ turn | emit _ _ turn
  | release _ _ turn => exact hturn turn
  | register _ threads | defer _ _ _ threads | beginInitialization _ threads
  | finalize _ threads =>
    rw [threads]
    exact htidy th

end

/-- Every thread is tidy, in every run. -/
theorem reachable_tidy {s : State κ} (h : (machine κ).Reachable s) (th : Thread κ) :
    (s.threads th).Tidy := by
  revert th
  refine h.invariant (I := fun s => ∀ th, (s.threads th).Tidy) ?_ ?_
  · rintro s rfl th
    exact ⟨rfl, nofun⟩
  · intro s a t htidy hstep
    exact (step_move htidy hstep).tidy htidy

end Sintra.Process.Registry
