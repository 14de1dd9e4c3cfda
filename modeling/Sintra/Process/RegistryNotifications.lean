import Sintra.Process.RegistryAgreement

/-!
# The notifications of the registry

Whoever follows the notifications on the coordinator's request ring keeps a set of the instances that
are published: `replay`. Together with the publications whose notification is put off it should be the
registry.

The announcement of a `Managed_process` is put off while some process is starting up, if the process
has no registry entry yet; the launch of a process makes the entry only after the process runs. Other
operations hand out what was put off. The unpublication of a process drops what it hands out itself for
the process, but not what stays put off because another process is still starting up.
-/

set_option linter.unusedSectionVars false

namespace Sintra.Process.Registry

open Function

open Coordinator (Instance managedProcess ReaderIdentity mprocId)

/-! ### Followers of the notifications -/

/-- What a follower of the notifications knows after one of them. -/
def Notification.apply (known : Finset Instance) : Notification → Finset Instance
  | .published d => insert d.instanceId known
  | .unpublished d =>
    if d.instanceId = managedProcess d.instanceId.process then
      known.filter fun i => i.process ≠ d.instanceId.process
    else known.erase d.instanceId

/-- What a follower of the notifications knows after all of them. -/
def replay (events : List Notification) : Finset Instance := events.foldl Notification.apply ∅

theorem replay_append (l events : List Notification) :
    replay (l ++ events) = events.foldl Notification.apply (replay l) := List.foldl_append

theorem mem_replay_published (l : List Notification) (ds : List PendingInstancePublication)
    (i : Instance) :
    i ∈ replay (l ++ ds.map .published) ↔ i ∈ replay l ∨ ∃ d ∈ ds, d.instanceId = i := by
  induction ds generalizing l with
  | nil => simp
  | cons d ds ih =>
    rw [List.map_cons, ← List.singleton_append, ← List.append_assoc, ih, replay_append]
    simp only [List.foldl_cons, List.foldl_nil, Notification.apply, Finset.mem_insert,
      List.mem_cons, exists_eq_or_imp]
    constructor
    · rintro ((rfl | h) | h)
      · exact .inr (.inl rfl)
      · exact .inl h
      · exact .inr (.inr h)
    · rintro (h | rfl | h)
      · exact .inl (.inr h)
      · exact .inl (.inl rfl)
      · exact .inr h

/-- The publication the announcement is about is in the books. -/
def Books.Registered (b : Books) (d : PendingInstancePublication) : Prop :=
  ∃ entry, b.publication d.instanceId = some entry ∧ entry.typeId = d.typeId ∧
    entry.name = d.assignedName

variable {κ : Type*}

/-- What the holder of `m_publication_notifications_mutex` has still to place on the ring. -/
def State.pending (s : State κ) : List Notification :=
  (s.notificationsMutex.bind fun th => (s.threads th).events).getD []

/-- The instance is on its way to the followers. -/
def State.Told (s : State κ) (i : Instance) : Prop :=
  i ∈ replay (s.news.requestRing ++ s.pending) ∨ ∃ d ∈ s.news.delayed, d.instanceId = i

/-- The ring, what is still to be placed on it and what is put off make up the registry. -/
structure Informed (s : State κ) : Prop where
  holder : ∀ th events, (s.threads th).events = some events → s.notificationsMutex = some th
  delayed : ∀ d ∈ s.news.delayed,
    d.instanceId = managedProcess d.instanceId.process ∧ s.books.Registered d
  pending : ∀ d, .published d ∈ s.pending → s.books.Registered d
  told : ∀ i, s.Told i ↔ (s.books.publication i).isSome

section

variable [DecidableEq κ] {s t : State κ} {th : Thread κ} {x : ThreadState}

theorem Turn.pending (turn : Turn s t th x) (hevents : x.events = (s.threads th).events)
    (hmutex : t.notificationsMutex = s.notificationsMutex) : t.pending = s.pending := by
  rw [State.pending, State.pending, hmutex, turn.threads]
  refine congrArg (Option.getD · []) (Option.bind_congr fun th' _ => ?_)
  by_cases hth : th' = th
  · rw [hth, update_self, hevents]
  · rw [update_of_ne hth]

theorem State.pending_of_free (h : s.notificationsMutex = none) : s.pending = [] := by
  rw [State.pending, h]
  rfl

theorem Turn.pending_of_holder (turn : Turn s t th x) {events : List Notification}
    (hevents : x.events = some events) (hmutex : t.notificationsMutex = some th) :
    t.pending = events := by
  rw [State.pending, hmutex, turn.threads, Option.bind_some, update_self, hevents]
  rfl

/-! ### Registered publications -/

variable {d : PendingInstancePublication}

theorem Books.Registered.of_eq {b b' : Books} (h : b.Registered d)
    (heq : b'.publication d.instanceId = b.publication d.instanceId) : b'.Registered d := by
  rw [Books.Registered, heq]
  exact h

theorem Books.Registered.publishTransceiver {b b' : Books}
    {iid : Instance} {entry : TransceiverPublication} (h : b.Registered d)
    (hpub : b.publishTransceiver iid entry = some b') : b'.Registered d := by
  obtain ⟨hfresh, hpublication⟩ := Books.publication_publishTransceiver hpub
  refine h.of_eq ?_
  rw [hpublication, update_of_ne]
  intro heq
  obtain ⟨e, he, -⟩ := h
  rw [heq, hfresh] at he
  cases he

/-! ### Steps -/

section

variable (h : Informed s)

include h

theorem Informed.pending_eq {events : List Notification}
    (hevents : (s.threads th).events = some events) : s.pending = events := by
  rw [State.pending, h.holder th events hevents, Option.bind_some, hevents]
  rfl

/-- A step that leaves publications and announcements as they are. -/
theorem Informed.of_same
    (hholder : ∀ th events, (t.threads th).events = some events → t.notificationsMutex = some th)
    (hpending : t.pending = s.pending) (hpublication : t.books.publication = s.books.publication)
    (hring : t.news.requestRing = s.news.requestRing) (hdelayed : t.news.delayed = s.news.delayed) :
    Informed t where
  holder := hholder
  delayed d hd := by
    obtain ⟨hmanaged, hregistered⟩ := h.delayed d (hdelayed ▸ hd)
    exact ⟨hmanaged, hregistered.of_eq (by rw [hpublication])⟩
  pending d hd := (h.pending d (hpending ▸ hd)).of_eq (by rw [hpublication])
  told i := by
    rw [State.Told, hring, hpending, hdelayed, hpublication]
    exact h.told i

theorem Informed.of_threads (threads : t.threads = s.threads)
    (mutex : t.notificationsMutex = s.notificationsMutex)
    (hpublication : t.books.publication = s.books.publication)
    (hring : t.news.requestRing = s.news.requestRing) (hdelayed : t.news.delayed = s.news.delayed) :
    Informed t := by
  refine h.of_same ?_ ?_ hpublication hring hdelayed
  · rw [threads, mutex]
    exact h.holder
  · rw [State.pending, mutex, threads, State.pending]

theorem Informed.finalize {p : InstanceId} (threads : t.threads = s.threads)
    (free : s.notificationsMutex = none) (books : t.books = s.books)
    (news : t.news = (s.news.finalize p).emit ((s.news.ready p).map .published))
    (mutex : t.notificationsMutex = s.notificationsMutex) : Informed t := by
  have hpending : t.pending = [] := State.pending_of_free (mutex.trans free)
  have hsplit : ∀ d, d ∈ s.news.ready p ∨ d ∈ (s.news.finalize p).delayed ↔ d ∈ s.news.delayed := by
    intro d
    by_cases hlast : s.news.initializing.erase p = ∅ <;> simp [News.ready, News.finalize, hlast]
  refine ⟨?_, fun d hd => ?_, ?_, fun i => ?_⟩
  · rw [threads, mutex]
    exact h.holder
  · rw [books]
    rw [news] at hd
    exact h.delayed d ((hsplit d).1 (.inr hd))
  · rw [hpending]
    exact nofun
  · have htold := h.told i
    rw [State.Told, State.pending_of_free free, List.append_nil] at htold
    have hput : (∃ d ∈ s.news.ready p, d.instanceId = i) ∨
        (∃ d ∈ (s.news.finalize p).delayed, d.instanceId = i) ↔
          ∃ d ∈ s.news.delayed, d.instanceId = i := by
      simp only [← hsplit, or_and_right, exists_or]
    rw [State.Told, news, hpending, List.append_nil, News.emit, mem_replay_published, or_assoc, hput,
      books]
    exact htold

variable (turn : Turn s t th x)

include turn

/-- Only the holder of the mutex has something to place. -/
theorem Turn.holder (hmutex : ∀ events, x.events = some events → t.notificationsMutex = some th)
    (hother : ∀ th', th' ≠ th → s.notificationsMutex = some th' → t.notificationsMutex = some th')
    (th' : Thread κ) (events : List Notification) (hevents : (t.threads th').events = some events) :
    t.notificationsMutex = some th' := by
  rw [turn.threads] at hevents
  by_cases hth : th' = th
  · rw [hth, update_self] at hevents
    rw [hth]
    exact hmutex events hevents
  · rw [update_of_ne hth] at hevents
    exact hother th' hth (h.holder th' events hevents)

theorem Informed.of_turn (events : x.events = (s.threads th).events)
    (mutex : t.notificationsMutex = s.notificationsMutex)
    (hpublication : t.books.publication = s.books.publication) (news : t.news = s.news) :
    Informed t := by
  refine h.of_same (turn.holder h ?_ ?_) (turn.pending events mutex) hpublication (by rw [news])
    (by rw [news])
  · intro e he
    rw [mutex]
    exact h.holder th e (events ▸ he)
  · intro th' _ hth'
    rwa [mutex]

theorem Informed.emit {event : Notification} {rest : List Notification}
    (events : (s.threads th).events = some (event :: rest)) (left : x.events = some rest)
    (books : t.books = s.books) (news : t.news = s.news.emit [event])
    (mutex : t.notificationsMutex = s.notificationsMutex) : Informed t := by
  have hmutex := mutex.trans (h.holder th _ events)
  have hpending : t.pending = rest := turn.pending_of_holder left hmutex
  have hpending' : s.pending = event :: rest := h.pending_eq events
  refine ⟨turn.holder h (fun _ _ => hmutex) (fun th' _ hth' => by rwa [mutex]), ?_, ?_, fun i => ?_⟩
  · rw [news, books]
    exact h.delayed
  · intro d hd
    rw [books]
    rw [hpending] at hd
    exact h.pending d (hpending' ▸ List.mem_cons_of_mem _ hd)
  · rw [State.Told, news, books, hpending, News.emit, List.append_assoc, List.singleton_append,
      ← hpending']
    exact h.told i

theorem Informed.release (events : (s.threads th).events = some []) (left : x.events = none)
    (books : t.books = s.books) (news : t.news = s.news) (mutex : t.notificationsMutex = none) :
    Informed t := by
  have hmutex := h.holder th _ events
  refine h.of_same (turn.holder h ?_ ?_) ?_ (by rw [books]) (by rw [news]) (by rw [news])
  · rw [left]
    exact nofun
  · intro th' hth hth'
    rw [hmutex, Option.some.injEq] at hth'
    exact absurd hth'.symm hth
  · rw [State.pending_of_free mutex, h.pending_eq events]

variable (free : s.notificationsMutex = none)

include free

theorem Informed.publish {iid : Instance} {entry : TransceiverPublication} (events : x.events = none)
    (books : s.books.publishTransceiver iid entry = some t.books)
    (news : t.news = s.news.announce ⟨entry.typeId, iid, entry.name⟩
      (s.books.registry iid.process).isNone) (mutex : t.notificationsMutex = none) :
    Informed t := by
  obtain ⟨hfresh, hpublication⟩ := Books.publication_publishTransceiver books
  have hself : t.books.Registered ⟨entry.typeId, iid, entry.name⟩ :=
    ⟨entry, by rw [hpublication, update_self], rfl, rfl⟩
  have hiff : ∀ i, (t.books.publication i).isSome ↔ s.Told i ∨ i = iid := by
    intro i
    rw [hpublication, h.told]
    by_cases hi : i = iid
    · simp [hi]
    · simp [hi]
  have hholder := turn.holder h (fun e he => by rw [events] at he; cases he)
    (fun th' _ hth' => by rw [free] at hth'; cases hth')
  have hpending : t.pending = [] := State.pending_of_free mutex
  have hnone : ∀ d, .published d ∈ t.pending → t.books.Registered d := by
    rw [hpending]
    exact nofun
  simp only [State.Told, State.pending_of_free free, List.append_nil] at hiff
  by_cases hdelay : (s.books.registry iid.process).isNone = true ∧ s.news.initializing ≠ ∅
  · rw [News.announce, if_pos hdelay] at news
    refine ⟨hholder, fun d hd => ?_, hnone, fun i => ?_⟩
    · rw [news] at hd
      obtain hd | hd := List.mem_append.1 hd
      · exact ⟨(h.delayed d hd).1, (h.delayed d hd).2.publishTransceiver books⟩
      · obtain rfl := List.mem_singleton.1 hd
        refine ⟨?_, hself⟩
        obtain ⟨processRegistry, -, hknown | ⟨-, -, hmanaged⟩, -⟩ :=
          Books.publishTransceiver_eq_some books
        · rw [hknown] at hdelay
          exact absurd hdelay.1 Bool.false_ne_true
        · exact hmanaged
    · rw [hiff, State.Told, hpending, news, List.append_nil]
      simp only [List.mem_append, List.mem_singleton, or_and_right, exists_or, exists_eq_left,
        or_assoc, eq_comm]
  · rw [News.announce, if_neg hdelay] at news
    refine ⟨hholder, fun d hd => ?_, hnone, fun i => ?_⟩
    · rw [news] at hd
      exact ⟨(h.delayed d hd).1, (h.delayed d hd).2.publishTransceiver books⟩
    · rw [hiff, State.Told, hpending, news, List.append_nil, News.emit]
      have hring := mem_replay_published s.news.requestRing [⟨entry.typeId, iid, entry.name⟩] i
      rw [List.map_singleton] at hring
      simp only [hring, List.mem_singleton, exists_eq_left, or_right_comm, eq_comm]

variable (mutex : t.notificationsMutex = some th)

include mutex

/-- A thread that finds the mutex free and takes it has all that is to be placed. -/
theorem Turn.holder_of_free :
    ∀ th' events, (t.threads th').events = some events → t.notificationsMutex = some th' :=
  turn.holder h (fun _ _ => mutex) fun th' _ hth' => by
    rw [free] at hth'
    cases hth'

variable {publication : TransceiverPublication}

theorem Informed.unpublishInstance {iid : Instance} (transceiver : iid ≠ managedProcess iid.process)
    (events : x.events = some [.unpublished ⟨publication.typeId, iid, publication.name⟩])
    (books : t.books = s.books.unpublishInstance iid publication) (news : t.news = s.news) :
    Informed t := by
  have hpending := turn.pending_of_holder events mutex
  have hpublication : t.books.publication = update s.books.publication iid none := by
    rw [books, Books.publication_unpublishInstance]
  have hother : ∀ d ∈ s.news.delayed, d.instanceId ≠ iid := by
    rintro d hd rfl
    exact transceiver (h.delayed d hd).1
  refine ⟨turn.holder_of_free h free mutex, fun d hd => ?_, ?_, fun i => ?_⟩
  · rw [news] at hd
    obtain ⟨hmanaged, hregistered⟩ := h.delayed d hd
    exact ⟨hmanaged, hregistered.of_eq (by rw [hpublication, update_of_ne (hother d hd)])⟩
  · rw [hpending]
    exact fun d hd => nomatch List.mem_singleton.1 hd
  · have htold := h.told i
    rw [State.Told, State.pending_of_free free, List.append_nil] at htold
    rw [State.Told, news, hpending, replay_append, hpublication]
    simp only [List.foldl_cons, List.foldl_nil, Notification.apply, if_neg transceiver,
      Finset.mem_erase]
    obtain rfl | hi := eq_or_ne i iid
    · simpa using hother
    · simpa [hi] using htold

theorem Informed.unpublishProcess {p : InstanceId}
    (hsettled : (∀ d ∈ s.news.delayed, d.instanceId ≠ managedProcess p) ∨
      s.news.initializing.erase p = ∅)
    (events : x.events = some (.unpublished ⟨publication.typeId, managedProcess p, publication.name⟩
      :: ((s.news.ready p).filter fun delayed => delayed.instanceId.process ≠ p).map .published))
    (books : t.books = s.books.unpublishProcess p) (news : t.news = s.news.finalize p) : Informed t := by
  have hpending := turn.pending_of_holder events mutex
  have hpublication := fun i => books ▸ Books.publication_unpublishProcess i
  -- What was put off is handed out or stays put off; nothing of the process is left of it.
  have hsplit : ∀ d, (d ∈ (s.news.ready p).filter fun d => d.instanceId.process ≠ p) ∨
      d ∈ (s.news.finalize p).delayed ↔ d ∈ s.news.delayed ∧ d.instanceId.process ≠ p := by
    intro d
    by_cases hlast : s.news.initializing.erase p = ∅
    · simp [News.ready, News.finalize, hlast]
    · have hother := hsettled.resolve_right hlast
      simp only [News.ready, News.finalize, if_neg hlast, List.filter_nil, List.not_mem_nil, false_or]
      refine ⟨fun hd => ⟨hd, fun hp => hother d hd ?_⟩, And.left⟩
      rw [(h.delayed d hd).1, hp]
  have hkept : ∀ d ∈ s.news.delayed, d.instanceId.process ≠ p → t.books.Registered d :=
    fun d hd hp => (h.delayed d hd).2.of_eq (by rw [hpublication, if_neg hp])
  refine ⟨turn.holder_of_free h free mutex, fun d hd => ?_, fun d hd => ?_, fun i => ?_⟩
  · rw [news] at hd
    obtain ⟨hd, hp⟩ := (hsplit d).1 (.inr hd)
    exact ⟨(h.delayed d hd).1, hkept d hd hp⟩
  · rw [hpending, List.mem_cons] at hd
    obtain hd | hd := hd
    · cases hd
    · obtain ⟨d', hd', heq⟩ := List.mem_map.1 hd
      obtain rfl := Notification.published.inj heq
      obtain ⟨hd, hp⟩ := (hsplit d').1 (.inl hd')
      exact hkept d' hd hp
  · have htold := h.told i
    rw [State.Told, State.pending_of_free free, List.append_nil] at htold
    have hforget : i ∈ replay (s.news.requestRing ++
        [.unpublished ⟨publication.typeId, managedProcess p, publication.name⟩]) ↔
          i ∈ replay s.news.requestRing ∧ i.process ≠ p := by
      rw [replay_append]
      simp [Notification.apply, managedProcess]
    have hput : (∃ d ∈ (s.news.ready p).filter fun d => d.instanceId.process ≠ p,
        d.instanceId = i) ∨ (∃ d ∈ (s.news.finalize p).delayed, d.instanceId = i) ↔
          (∃ d ∈ s.news.delayed, d.instanceId = i) ∧ i.process ≠ p := by
      rw [← exists_or]
      constructor
      · rintro ⟨d, ⟨hd, rfl⟩ | ⟨hd, rfl⟩⟩
        · exact ⟨⟨d, ((hsplit d).1 (.inl hd)).1, rfl⟩, ((hsplit d).1 (.inl hd)).2⟩
        · exact ⟨⟨d, ((hsplit d).1 (.inr hd)).1, rfl⟩, ((hsplit d).1 (.inr hd)).2⟩
      · rintro ⟨⟨d, hd, rfl⟩, hp⟩
        exact ⟨d, ((hsplit d).2 ⟨hd, hp⟩).imp (⟨·, rfl⟩) (⟨·, rfl⟩)⟩
    rw [State.Told, news, hpending, ← List.singleton_append, ← List.append_assoc,
      mem_replay_published, or_assoc, hput, News.finalize, hforget, ← or_and_right, htold, hpublication]
    by_cases hp : i.process = p <;> simp [hp]

end

/-- A process is not unpublished while its announcement is put off, unless no other process is
starting up. -/
def Settled (s : State κ) : Action κ → Prop
  | .unpublish _ iid expectedIdentity =>
    iid = managedProcess iid.process → (s.books.publicationOf iid expectedIdentity).isSome →
      (∀ d ∈ s.news.delayed, d.instanceId ≠ iid) ∨ s.news.initializing.erase iid.process = ∅
  | _ => True

instance (s : State κ) (a : Action κ) : Decidable (Settled s a) :=
  match a with
  | .unpublish _ iid expectedIdentity =>
    inferInstanceAs (Decidable (iid = managedProcess iid.process →
      (s.books.publicationOf iid expectedIdentity).isSome → _ ∨ _))
  | .publish .. | .publishLocal .. | .makeProcessGroup .. | .claim .. | .waitForInstance ..
  | .register .. | .beginInitialization .. | .markInitializationComplete .. | .proceed .. =>
    isTrue trivial

/-- What a step places on the ring is announced of registered instances only. -/
theorem Move.announces {a : Action κ} (hmove : Move a s t) (h : Informed s) :
    ∃ events, t.news.requestRing = s.news.requestRing ++ events ∧
      ∀ d, .published d ∈ events → t.books.Registered d := by
  have hnone : t.news = s.news → ∃ events, t.news.requestRing = s.news.requestRing ++ events ∧
      ∀ d, .published d ∈ events → t.books.Registered d := by
    intro news
    refine ⟨[], ?_, nofun⟩
    rw [news, List.append_nil]
  cases hmove with
  | publish _ _ _ _ iid entry _ _ _ books _ news =>
    have hpublication := (Books.publication_publishTransceiver books).2
    by_cases hdelay : (s.books.registry iid.process).isNone = true ∧ s.news.initializing ≠ ∅
    · rw [News.announce, if_pos hdelay] at news
      refine ⟨[], ?_, nofun⟩
      rw [news, List.append_nil]
    · rw [News.announce, if_neg hdelay] at news
      refine ⟨[.published ⟨entry.typeId, iid, entry.name⟩], by rw [news]; rfl, fun d hd => ?_⟩
      obtain rfl := Notification.published.inj (List.mem_singleton.1 hd)
      exact ⟨entry, by rw [hpublication, update_self], rfl, rfl⟩
  | unpublishProcess _ _ _ _ p _ _ _ _ _ _ _ _ news =>
    refine ⟨[], ?_, nofun⟩
    rw [news, List.append_nil]
    rfl
  | beginInitialization p _ _ _ news =>
    refine ⟨[], ?_, nofun⟩
    rw [news, List.append_nil]
  | finalize p _ _ books _ news =>
    refine ⟨(s.news.ready p).map .published, by rw [news]; rfl, fun d hd => ?_⟩
    obtain ⟨d', hd', heq⟩ := List.mem_map.1 hd
    obtain rfl := Notification.published.inj heq
    rw [books]
    refine (h.delayed d' ?_).2
    rw [News.ready] at hd'
    split at hd'
    · exact hd'
    · cases hd'
  | emit th _ _ _ event rest _ events _ books _ news =>
    refine ⟨[event], by rw [news]; rfl, fun d hd => ?_⟩
    rw [books]
    refine h.pending d ?_
    rw [h.pending_eq events, ← List.mem_singleton.1 hd]
    exact List.mem_cons_self
  | quiet _ _ _ _ _ _ _ _ news | unpublishInstance _ _ _ _ _ _ _ _ _ _ _ _ _ _ news
  | claim _ _ _ _ _ _ _ _ _ _ _ news | withdraw _ _ _ _ _ _ _ _ _ _ news
  | register _ _ _ _ news | result _ _ _ _ _ _ _ _ _ _ _ news | defer _ _ _ _ _ _ _ news
  | complete _ _ _ _ _ _ _ _ _ news | release _ _ _ _ _ _ _ _ _ news => exact hnone news

end

/-- No operation of the coordinator is in progress. -/
def State.AtRest (s : State κ) : Prop := ∀ th, (s.threads th).idle = true

variable [DecidableEq κ]

end Sintra.Process.Registry
