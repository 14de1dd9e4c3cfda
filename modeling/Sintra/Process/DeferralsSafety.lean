import Sintra.Process.Deferrals

/-!
# A deferral precedes its completion

In runs that are `Orderly`; `last_arriver_not_deferred` is a drop between the two sections of the
last arriver, and a process that waits for a name twice.

The ring part is the book of `Sintra.Lib.Gatherings`: every step of the coordinator is an operation
on it. `CallerOk` ties the return handlers of a process to what is ahead of its reply reader.
-/

namespace Sintra.Process.Deferrals

open Function State Machine Option

open Gatherings

variable {s t : State} {m : Reply} {hd : Handler} {x : InstanceId × InstanceId}
  {p q c f : InstanceId}

/-! ### Runs in order -/

/-- The reply is a deferral that announces the id `f` to `p`. -/
def Reply.announces (p f : InstanceId) : Reply → Bool
  | .deferral q _ g => q = p ∧ g = f
  | _ => false

/-- A process does not call a barrier, or wait for a name, when a call of it was already deferred
under the function id of that round, or of those who wait. It is not dropped from a group between the
two sections of the last arriver of a barrier it has arrived at. -/
def Orderly (s : State) : Action → Prop
  | .barrier group caller name _ => ∀ b ∈ (s.tables.groups group).barriers.lookup name,
      b.processesPending ≠ ∅ → ∀ m ∈ s.replyRing, m.announces caller b.commonFunctionIid = false
  | .waitForInstance caller name => ∀ info ∈ s.tables.instancesWaited name,
      ∀ m ∈ s.replyRing, m.announces caller info.commonFunctionIid = false
  | .drop group p scope => ∀ n ∈ (s.tables.groups group).barriers.keys, ∀ b ∈
      (s.tables.groups group).barriers.lookup n, scope.skips n = false → b.processesPending = ∅ →
      p ∉ b.processesArrived
  | _ => True

instance : DecidablePred (Orderly s) := fun a => by
  cases a <;> unfold Orderly <;> infer_instance

theorem announces_iff : m.announces p f = true ↔ ∃ c, m = .deferral p c f := by
  cases m with
  | deferral q c g =>
    simp only [Reply.announces, decide_eq_true_eq, Reply.deferral.injEq]
    exact ⟨fun ⟨hq, hg⟩ => ⟨c, hq, rfl, hg⟩, fun ⟨_, hq, _, hg⟩ => ⟨hq, hg⟩⟩
  | completion | result => simp [Reply.announces]

/-! ### The invariant -/

/-- The call that a handler has still to answer. -/
def Handler.answers (h : Handler) : Multiset InstanceId :=
  h.reply.elim 0 fun a => {a.functionIid}

/-- The calls that were answered, or whose answer a thread has still to write. -/
def State.answers (s : State) : Multiset InstanceId :=
  (s.replyRing.filterMap Reply.call : Multiset InstanceId) + s.handlers.bind Handler.answers

/-- The return handlers of `p` fit what is behind and ahead of its reply reader. -/
structure CallerOk (s : State) (p : InstanceId) : Prop where
  position_le : (s.callers p).position ≤ s.replyRing.length
  running : (s.callers p).terminated = false
  /-- A call whose first answer is to be read has its handler. -/
  ahead : ∀ (i : ℕ) m c, (s.callers p).position ≤ i → s.replyRing[i]? = some m → m.receiver = p →
    m.call = some c → (s.callers p).returnHandlers c = some true
  /-- The id to which a deferral will move it is free. -/
  ahead_new : ∀ (i : ℕ) c f, (s.callers p).position ≤ i →
    s.replyRing[i]? = some (.deferral p c f) → (s.callers p).returnHandlers f = none
  /-- A handler that was moved stays until its completion has been read. -/
  behind : ∀ (i : ℕ) c f, i < (s.callers p).position → s.replyRing[i]? = some (.deferral p c f) →
    (∀ j < (s.callers p).position, s.replyRing[j]? ≠ some (.completion p f)) →
    (s.callers p).returnHandlers f = some true
  /-- A call whose answer is still to be written has its handler. -/
  answer : ∀ h ∈ s.handlers, ∀ a, h.reply = some a → a.receiver = p →
    (s.callers p).returnHandlers a.functionIid = some true
  /-- Handlers are active under the ids of calls of `p` and of deferrals to `p`. -/
  keys : ∀ k, (s.callers p).returnHandlers k ≠ none →
    s.calls k = some p ∨ ∃ c, Reply.deferral p c k ∈ s.replyRing

structure Inv (s : State) : Prop where
  book : s.book.Ok
  id_lt : ∀ f, s.book.Mentions f → f < s.nextIid
  id_not_call : ∀ f, s.book.Mentions f → s.calls f = none
  call_lt : ∀ c p, s.calls c = some p → c < s.nextIid
  answers_calls : ∀ c ∈ s.answers, s.calls c ≠ none
  answers_nodup : s.answers.Nodup
  /-- A deferral goes to the process whose call it answers. -/
  deferral_calls : ∀ p c f, Reply.deferral p c f ∈ s.replyRing → s.calls c = some p
  announced_once : ∀ (i j : ℕ) p c c' f, s.replyRing[i]? = some (.deferral p c f) →
    s.replyRing[j]? = some (.deferral p c' f) → i = j
  callers : ∀ p, CallerOk s p
  discarded : s.discarded = []

theorem Inv.initial : Inv .initial := by
  have hbook : State.initial.book = Book.empty := by
    refine congrArg₂ (fun i l => (⟨i, 0, l⟩ : Book Key InstanceId InstanceId)) ?_ rfl
    funext k
    cases k <;> rfl
  have hmentions : ∀ f, ¬State.initial.book.Mentions f := by
    rw [hbook]
    rintro f (⟨k, g, hk, -⟩ | ⟨q, hq⟩)
    · cases hk
    · cases hq
  constructor
  case book =>
    rw [hbook]
    exact Book.Ok.empty
  case callers => exact fun p => by constructor <;> simp [State.initial]
  all_goals first
    | exact fun f hf => absurd hf (hmentions f)
    | simp [State.initial, State.answers]

/-! ### Ids on the ring -/

theorem mentions_of_deferral (h : Reply.deferral p c f ∈ s.replyRing) : s.book.Mentions f :=
  .inr ⟨p, List.mem_map.2 ⟨_, h, rfl⟩⟩

variable {i : ℕ}

theorem mentions_of_getElem? (h : s.replyRing[i]? = some (.deferral p c f)) :
    s.book.Mentions f :=
  mentions_of_deferral (List.mem_of_getElem? h)

/-- An id that the book does not mention was announced to nobody. -/
theorem not_announced (hf : ¬s.book.Mentions f) : ∀ m ∈ s.replyRing, m.announces p f = false := by
  intro m hm
  cases hann : m.announces p f with
  | false => rfl
  | true =>
    obtain ⟨c, rfl⟩ := announces_iff.1 hann
    exact absurd (mentions_of_deferral hm) hf

theorem answers_of_mem (hm : m ∈ s.replyRing) (hc : m.call = some c) : c ∈ s.answers :=
  Multiset.mem_add.2 (.inl (List.mem_filterMap.2 ⟨m, hm, hc⟩))

variable {h : Handler} {b : Barrier} {n : String} {a : Answer} {tables : Tables}
    {group : InstanceId}

theorem Handler.mem_answers : c ∈ h.answers ↔ ∃ a, h.reply = some a ∧ a.functionIid = c := by
  cases hreply : h.reply <;> simp [Handler.answers, hreply, eq_comm]

theorem answers_of_handler (hmem : h ∈ s.handlers) (ha : h.reply = some a) :
    a.functionIid ∈ s.answers :=
  Multiset.mem_add.2 (.inr (Multiset.mem_bind.2 ⟨h, hmem, Handler.mem_answers.2 ⟨a, ha, rfl⟩⟩))

/-- The id of a call is not the common id of a deferral. -/
theorem Inv.call_ne (hs : Inv s) (hc : c ∈ s.answers) (hf : s.book.Mentions f) : c ≠ f := by
  rintro rfl
  exact hs.answers_calls c hc (hs.id_not_call c hf)

theorem index_unique {α β : Type*} {l : List α} {g : α → Option β} (h : (l.filterMap g).Nodup)
    {j : ℕ} {a b : α} {x : β} (hi : l[i]? = some a) (hj : l[j]? = some b) (ha : g a = some x)
    (hb : g b = some x) : i = j := by
  have hpair := List.pairwise_iff_getElem.1 (List.pairwise_filterMap.1 h)
  obtain ⟨hil, rfl⟩ := List.getElem?_eq_some_iff.1 hi
  obtain ⟨hjl, rfl⟩ := List.getElem?_eq_some_iff.1 hj
  rcases Nat.lt_trichotomy i j with hlt | heq | hgt
  · exact absurd rfl (hpair i j hil hjl hlt x ha x hb)
  · exact heq
  · exact absurd rfl (hpair j i hjl hil hgt x hb x ha)

/-- A call is answered once on the ring. -/
theorem Inv.answered_once (hs : Inv s) {j : ℕ} {m' : Reply} (hi : s.replyRing[i]? = some m)
    (hj : s.replyRing[j]? = some m') (hm : m.call = some c) (hm' : m'.call = some c) : i = j :=
  index_unique (Multiset.coe_nodup.1 (Multiset.nodup_add.1 hs.answers_nodup).1) hi hj hm hm'

/-- A call that was answered is not answered again. -/
theorem Inv.not_answered_again (hs : Inv s) (hm : m ∈ s.replyRing)
    (hc : m.call = some c) (hmem : h ∈ s.handlers) (ha : h.reply = some a) : a.functionIid ≠ c := by
  rintro rfl
  refine Multiset.disjoint_left.1 (Multiset.nodup_add.1 hs.answers_nodup).2.2
    (List.mem_filterMap.2 ⟨m, hm, hc⟩) ?_
  exact Multiset.mem_bind.2 ⟨h, hmem, Handler.mem_answers.2 ⟨a, ha, rfl⟩⟩

/-! ### Steps that leave the callers alone -/

/-- The ring and the position of the reader stay: no handler that waits is lost, and none is set up
under an id that a deferral on the ring announces. -/
theorem CallerOk.rehandle (hp : CallerOk s p) (hring : t.replyRing = s.replyRing)
    (hposition : (t.callers p).position = (s.callers p).position)
    (hrunning : (t.callers p).terminated = (s.callers p).terminated)
    (hactive : ∀ k, (s.callers p).returnHandlers k = some true → (t.callers p).returnHandlers k = some true)
    (hfree : ∀ (i : ℕ) c f, s.replyRing[i]? = some (.deferral p c f) →
      (s.callers p).returnHandlers f = none → (t.callers p).returnHandlers f = none)
    (hanswer : ∀ h ∈ t.handlers, ∀ a, h.reply = some a → a.receiver = p →
      (s.callers p).returnHandlers a.functionIid = some true)
    (hkeys : ∀ k, (t.callers p).returnHandlers k ≠ none →
      t.calls k = some p ∨ ∃ c, Reply.deferral p c k ∈ s.replyRing) : CallerOk t p := by
  constructor
  case answer => exact fun h hmem a ha hap => hactive _ (hanswer h hmem a ha hap)
  case running => exact hrunning.trans hp.running
  all_goals rw [hring]
  case keys => exact hkeys
  all_goals rw [hposition]
  case position_le => exact hp.position_le
  case ahead => exact fun i m c hi hm hmp hc => hactive c (hp.ahead i m c hi hm hmp hc)
  case ahead_new => exact fun i c f hi hm => hfree i c f hm (hp.ahead_new i c f hi hm)
  case behind => exact fun i c f hi hm hunread => hactive f (hp.behind i c f hi hm hunread)

/-- The ring, the callers and the answers owed are what they were. -/
theorem CallerOk.of_eq (hp : CallerOk s p) (hring : t.replyRing = s.replyRing)
    (hcallers : t.callers p = s.callers p) (hhandlers : t.handlers = s.handlers)
    (hkeys : ∀ k, (s.callers p).returnHandlers k ≠ none →
      t.calls k = some p ∨ ∃ c, Reply.deferral p c k ∈ s.replyRing) : CallerOk t p := by
  refine hp.rehandle hring ?_ ?_ ?_ ?_ (hhandlers ▸ hp.answer) ?_
  all_goals rw [hcallers]
  · exact fun _ hk => hk
  · exact fun _ _ _ _ hf => hf
  · exact hkeys

/-- The call `c` of `p` waits for its first answer, which nobody is about to write. -/
structure Unanswered (s : State) (p c : InstanceId) : Prop where
  call : s.calls c = some p
  active : (s.callers p).returnHandlers c = some true
  not_answered : c ∉ s.answers

theorem answers_addHandler (s : State) (h : Handler) :
    (s.addHandler h).answers = s.answers + h.answers := by
  rw [answers, addHandler, Multiset.cons_bind, answers, add_comm h.answers,
    add_assoc]

/-- The new answers `l` are to calls that wait, and a new id is that of no call. -/
theorem Inv.of_book (hs : Inv s) {l : Multiset InstanceId} (hok : t.book.Ok)
    (hmentions : ∀ f, t.book.Mentions f → s.book.Mentions f ∨ f < s.nextIid ∧ s.calls f = none)
    (hanswers : t.answers = s.answers + l) (hl : l.Nodup) (hu : ∀ c ∈ l, ∃ p, Unanswered s p c)
    (hnext : t.nextIid = s.nextIid) (hcalls : t.calls = s.calls)
    (hdeferral : ∀ p c f, Reply.deferral p c f ∈ t.replyRing → s.calls c = some p)
    (honce : ∀ (i j : ℕ) p c c' f, t.replyRing[i]? = some (.deferral p c f) →
      t.replyRing[j]? = some (.deferral p c' f) → i = j) (hdiscarded : t.discarded = s.discarded)
    (hcallers : ∀ p, CallerOk t p) : Inv t := by
  have hids : ∀ f, t.book.Mentions f → f < s.nextIid ∧ s.calls f = none := fun f hf =>
    (hmentions f hf).elim (fun hf => ⟨hs.id_lt f hf, hs.id_not_call f hf⟩) id
  constructor
  case book => exact hok
  case callers => exact hcallers
  case announced_once => exact honce
  case discarded => exact hdiscarded.trans hs.discarded
  all_goals first | rw [hnext] | rw [hanswers] | skip
  case answers_nodup =>
    refine Multiset.nodup_add.2 ⟨hs.answers_nodup, hl, Multiset.disjoint_right.2 fun {c} hc => ?_⟩
    obtain ⟨p, hp⟩ := hu c hc
    exact hp.not_answered
  case id_lt => exact fun f hf => (hids f hf).1
  all_goals rw [hcalls]
  case id_not_call => exact fun f hf => (hids f hf).2
  case call_lt => exact hs.call_lt
  case deferral_calls => exact hdeferral
  case answers_calls =>
    intro c hc
    obtain hc | hc := Multiset.mem_add.1 hc
    · exact hs.answers_calls c hc
    · obtain ⟨p, hp⟩ := hu c hc
      exact fun hnone => nomatch hp.call.symm.trans hnone

theorem book_addHandler (s : State) (h : Handler) :
    (s.addHandler h).book = { s.book with owed := s.book.owed + h.queue } :=
  congrArg (fun o => ({ s.book with owed := o } : Book Key InstanceId InstanceId)) (s.owed_addHandler h)

/-- The tables change and a thread is left with work, which is an operation on the book. -/
theorem Inv.addHandler (hs : Inv s) {b : Book Key InstanceId InstanceId}
    (hbook : ((s.setTables tables).addHandler h).book = b) (hok : b.Ok)
    (hmentions : ∀ f, b.Mentions f → s.book.Mentions f)
    (hreply : ∀ a, h.reply = some a → Unanswered s a.receiver a.functionIid) :
    Inv ((s.setTables tables).addHandler h) := by
  refine hs.of_book (hbook ▸ hok) (fun f hf => .inl (hmentions f (hbook ▸ hf)))
    (answers_addHandler _ h) ?_ ?_ rfl rfl hs.deferral_calls hs.announced_once rfl fun p => ?_
  · cases hr : h.reply <;> simp [Handler.answers, hr]
  · intro c hc
    obtain ⟨a, ha, rfl⟩ := Handler.mem_answers.1 hc
    exact ⟨_, hreply a ha⟩
  · refine { hs.callers p with answer := fun h' hmem a ha hap => ?_ }
    obtain rfl | hmem := Multiset.mem_cons.1 hmem
    · subst hap
      exact (hreply a ha).active
    · exact (hs.callers p).answer h' hmem a ha hap

/-- A thread is left with nothing but an answer. -/
theorem Inv.addAnswer (hs : Inv s) (hqueue : h.queue = 0)
    (hreply : ∀ a, h.reply = some a → Unanswered s a.receiver a.functionIid) :
    Inv (s.addHandler h) := by
  have hbook : ((s.setTables s.tables).addHandler h).book = s.book := by
    rw [book_addHandler, hqueue, add_zero]
    rfl
  exact hs.addHandler hbook hs.book (fun _ hf => hf) hreply

/-- The answers still to be written, when a handler goes on and owes no other one. -/
theorem CallerOk.answer_replace (hp : CallerOk s p) {h' : Handler} (hmem : h ∈ s.handlers)
    (hreply : ∀ a, h'.reply = some a → h.reply = some a) :
    ∀ g ∈ h' ::ₘ s.handlers.erase h, ∀ a, g.reply = some a → a.receiver = p →
      (s.callers p).returnHandlers a.functionIid = some true := by
  intro g hg a ha hap
  obtain rfl | hg := Multiset.mem_cons.1 hg
  · exact hp.answer h hmem a (hreply a ha) hap
  · exact hp.answer g (Multiset.mem_of_mem_erase hg) a ha hap

/-- A handler goes on with the same queue and the same answer. -/
theorem Inv.replaceHandler (hs : Inv s) {h' : Handler} (hmem : h ∈ s.handlers)
    (hqueue : h'.queue = h.queue) (hreply : h'.reply = h.reply) : Inv (s.replaceHandler h h') := by
  have hbook : (s.replaceHandler h h').book = s.book := by
    refine congrArg (fun o => ({ s.book with owed := o } : Book Key InstanceId InstanceId)) ?_
    exact bind_replaceHandler_same Handler.queue hmem hqueue
  have hanswers : (s.replaceHandler h h').answers = s.answers := by
    refine congrArg (_ + ·) (bind_replaceHandler_same Handler.answers hmem ?_)
    rw [Handler.answers, hreply, Handler.answers]
  refine hs.of_book (hbook ▸ hs.book) (fun f hf => .inl (hbook ▸ hf))
    (hanswers.trans (add_zero _).symm) Multiset.nodup_zero nofun rfl rfl
    hs.deferral_calls hs.announced_once rfl fun p => ?_
  exact { hs.callers p with
    answer := (hs.callers p).answer_replace hmem fun a ha => hreply ▸ ha }

theorem Inv.setTables (hs : Inv s) {b : Book Key InstanceId InstanceId}
    (hbook : (s.setTables tables).book = b) (hok : b.Ok)
    (hmentions : ∀ f, b.Mentions f → s.book.Mentions f) : Inv (s.setTables tables) := { hs with
  book := hbook ▸ hok
  id_lt f hf := hs.id_lt f (hmentions f (hbook ▸ hf))
  id_not_call f hf := hs.id_not_call f (hmentions f (hbook ▸ hf))
  callers p := { hs.callers p with } }

theorem Inv.draw (hs : Inv s) : Inv s.draw := { hs with
  id_lt f hf := Nat.lt_succ_of_lt (hs.id_lt f hf)
  call_lt c p hc := Nat.lt_succ_of_lt (hs.call_lt c p hc)
  callers p := { hs.callers p with } }

/-! ### A call begins -/

theorem Inv.not_call_nextIid (hs : Inv s) : s.calls s.nextIid = none := by
  cases hc : s.calls s.nextIid with
  | none => rfl
  | some p => exact absurd (hs.call_lt _ p hc) (lt_irrefl _)

theorem Inv.not_mentions_nextIid (hs : Inv s) : ¬s.book.Mentions s.nextIid :=
  fun hf => lt_irrefl _ (hs.id_lt _ hf)

@[simp] theorem callers_setCaller_self (s : State) (p : InstanceId) (c : Caller) :
    (s.setCaller p c).callers p = c := update_self _ _ _

theorem callers_setCaller_of_ne (s : State) (c : Caller) (h : q ≠ p) :
    (s.setCaller p c).callers q = s.callers q := update_of_ne h _ _

theorem calls_call_of_ne (s : State) (p : InstanceId) (h : c ≠ s.nextIid) :
    (s.call p).calls c = s.calls c := update_of_ne h _ _

@[simp] theorem calls_call_self (s : State) (p : InstanceId) :
    (s.call p).calls s.nextIid = some p := update_self _ _ _

theorem Inv.unanswered_call (hs : Inv s) (p : InstanceId) : Unanswered (s.call p) p s.nextIid where
  call := calls_call_self s p
  active := by
    change ((s.setCaller p _).callers p).returnHandlers s.nextIid = _
    rw [callers_setCaller_self, Caller.returnHandlers_activate_self]
  not_answered := fun hc => hs.answers_calls _ hc hs.not_call_nextIid

theorem CallerOk.call (hs : Inv s) (p q : InstanceId) : CallerOk (s.call p) q := by
  have hq := hs.callers q
  have hcalls : ∀ c r, s.calls c = some r → (s.call p).calls c = some r := by
    intro c r hc
    rw [calls_call_of_ne s p (Nat.ne_of_lt (hs.call_lt c r hc)), hc]
  have hkeys : ∀ k, (s.callers q).returnHandlers k ≠ none →
      (s.call p).calls k = some q ∨ ∃ c, Reply.deferral q c k ∈ s.replyRing :=
    fun k hk => (hq.keys k hk).imp_left (hcalls k q)
  obtain rfl | hqp := eq_or_ne q p
  · -- the handlers are those there were, and that of the new call
    have hself : (s.call q).callers q = (s.callers q).activateReturnHandler s.nextIid :=
      callers_setCaller_self _ _ _
    refine hq.rehandle rfl ?_ ?_ (fun k hk => ?_) (fun i c f hm hf => ?_) hq.answer (fun k hk => ?_)
    all_goals rw [hself] at *
    · rfl
    · rfl
    · by_cases hk' : k = s.nextIid
      · rw [hk', Caller.returnHandlers_activate_self]
      · rw [Caller.returnHandlers_activate_of_ne _ hk', hk]
    · have hne : f ≠ s.nextIid := by
        rintro rfl
        exact hs.not_mentions_nextIid (mentions_of_getElem? hm)
      rw [Caller.returnHandlers_activate_of_ne _ hne, hf]
    · by_cases hk' : k = s.nextIid
      · subst hk'
        exact .inl (calls_call_self s q)
      · rw [Caller.returnHandlers_activate_of_ne _ hk'] at hk
        exact hkeys k hk
  · exact hq.of_eq rfl (callers_setCaller_of_ne _ _ hqp) rfl hkeys

theorem Inv.call (hs : Inv s) (p : InstanceId) : Inv (s.call p) := { hs with
  id_lt f hf := Nat.lt_succ_of_lt (hs.id_lt f hf)
  id_not_call f hf := by
    rw [calls_call_of_ne s p (Nat.ne_of_lt (hs.id_lt f hf))]
    exact hs.id_not_call f hf
  call_lt c q hc := by
    by_cases hne : c = s.nextIid
    · rw [hne]
      exact Nat.lt_succ_self _
    · rw [calls_call_of_ne s p hne] at hc
      exact Nat.lt_succ_of_lt (hs.call_lt c q hc)
  answers_calls c hc := by
    have hne : c ≠ s.nextIid := by
      rintro rfl
      exact hs.answers_calls _ hc hs.not_call_nextIid
    rw [calls_call_of_ne s p hne]
    exact hs.answers_calls c hc
  deferral_calls q c f hf := by
    have hc := hs.deferral_calls q c f hf
    rw [calls_call_of_ne s p (Nat.ne_of_lt (hs.call_lt c q hc)), hc]
  callers q := CallerOk.call hs p q }

/-! ### What is written to the ring -/

/-- A reply is written: only if it is the first answer to a call of `p`, its return handler matters. -/
theorem CallerOk.send (hp : CallerOk s p) (hring : t.replyRing = s.replyRing ++ [m])
    (hcallers : t.callers p = s.callers p) (hcalls : t.calls = s.calls)
    (hanswer : ∀ h ∈ t.handlers, ∀ a, h.reply = some a → a.receiver = p →
      (s.callers p).returnHandlers a.functionIid = some true)
    (hfirst : ∀ c, m.receiver = p → m.call = some c → (s.callers p).returnHandlers c = some true)
    (hnew : ∀ c f, m = .deferral p c f → (s.callers p).returnHandlers f = none) : CallerOk t p := by
  have hget : ∀ {i : ℕ} {m'}, t.replyRing[i]? = some m' →
      s.replyRing[i]? = some m' ∨ i = s.replyRing.length ∧ m = m' := by
    intro i m' hi
    rw [hring] at hi
    exact Book.getElem?_append_singleton.1 hi
  have hbehind : ∀ {i : ℕ} {m'}, i < (s.callers p).position → t.replyRing[i]? = some m' →
      s.replyRing[i]? = some m' := by
    intro i m' hi hm'
    refine (hget hm').resolve_right fun hlast => ?_
    exact absurd hp.position_le (by omega)
  have hold : ∀ {i : ℕ} {m'}, s.replyRing[i]? = some m' → t.replyRing[i]? = some m' := by
    intro i m' hi
    rw [hring]
    exact Book.getElem?_append_singleton.2 (.inl hi)
  constructor
  case answer =>
    rw [hcallers]
    exact hanswer
  all_goals rw [hcallers]
  case position_le =>
    rw [hring, List.length_append]
    exact Nat.le_add_right_of_le hp.position_le
  case running => exact hp.running
  case ahead =>
    intro i m' c hi hm' hmp hc
    obtain hm' | ⟨-, rfl⟩ := hget hm'
    · exact hp.ahead i m' c hi hm' hmp hc
    · exact hfirst c hmp hc
  case ahead_new =>
    intro i c f hi hm'
    obtain hm' | ⟨-, heq⟩ := hget hm'
    · exact hp.ahead_new i c f hi hm'
    · exact hnew c f heq
  case behind =>
    intro i c f hi hm' hunread
    exact hp.behind i c f hi (hbehind hi hm') fun j hj hread => hunread j hj (hold hread)
  case keys =>
    intro k hk
    rw [hcalls, hring]
    obtain hcall | ⟨c, hc⟩ := hp.keys k hk
    · exact .inl hcall
    · exact .inr ⟨c, List.mem_append_left _ hc⟩

/-- The calls that were answered, after a reply is written. -/
theorem answers_send (s : State) (m : Reply) :
    (s.send m).answers = s.answers + (m.call.elim 0 fun c => {c} : Multiset InstanceId) := by
  have hfilter : (s.replyRing ++ [m]).filterMap Reply.call =
      s.replyRing.filterMap Reply.call ++ m.call.toList := by
    cases hc : m.call <;> simp [hc]
  simp only [answers, send, hfilter, ← Multiset.coe_add, add_right_comm]
  cases hc : m.call <;> simp

/-- A new deferral goes to the process whose call it answers. -/
theorem Inv.deferral_calls_send (hs : Inv s)
    (hm : ∀ p c f, m = .deferral p c f → s.calls c = some p) (p c f : InstanceId)
    (h : Reply.deferral p c f ∈ s.replyRing ++ [m]) : s.calls c = some p :=
  (List.mem_append.1 h).elim (hs.deferral_calls p c f) fun h =>
    hm p c f (List.mem_singleton.1 h).symm

/-- A new deferral announces an id that was not announced to its process. -/
theorem Inv.announced_once_send (hs : Inv s)
    (hm : ∀ p c f, m = .deferral p c f → ∀ c', Reply.deferral p c' f ∉ s.replyRing) (i j : ℕ)
    (p c c' f : InstanceId) (hi : (s.replyRing ++ [m])[i]? = some (.deferral p c f))
    (hj : (s.replyRing ++ [m])[j]? = some (.deferral p c' f)) : i = j := by
  obtain hi | ⟨hi, heq⟩ := Book.getElem?_append_singleton.1 hi
  · obtain hj | ⟨-, heq⟩ := Book.getElem?_append_singleton.1 hj
    · exact hs.announced_once i j p c c' f hi hj
    · exact absurd (List.mem_of_getElem? hi) (hm p c' f heq c)
  · obtain hj | ⟨hj, -⟩ := Book.getElem?_append_singleton.1 hj
    · exact absurd (List.mem_of_getElem? hj) (hm p c f heq c')
    · rw [hi, hj]

/-- A call is deferred, which is an announcement in the book. -/
theorem Inv.defer (hs : Inv s) {k : Key} {g : Gathering InstanceId InstanceId}
    (hu : Unanswered s p c) (hjoins : s.book.Joins k g)
    (hflight : tables.inFlight = (s.book.announce k g p).inFlight) (hlt : g.id < s.nextIid)
    (hcall : s.calls g.id = none) (honce : ∀ m ∈ s.replyRing, m.announces p g.id = false) :
    Inv ((s.setTables tables).send (.deferral p c g.id)) := by
  have hbook : ((s.setTables tables).send (.deferral p c g.id)).book = s.book.announce k g p := by
    simp only [State.book, State.setTables, State.send, List.map_append, hflight]
    rfl
  have hfresh : ∀ c', Reply.deferral p c' g.id ∉ s.replyRing := by
    intro c' hmem
    have hfalse := honce _ hmem
    rw [announces_iff.2 ⟨c', rfl⟩] at hfalse
    cases hfalse
  refine hs.of_book (hbook ▸ hs.book.announce hjoins p) (fun f hf => ?_)
    (answers_send (s.setTables tables) _) (Multiset.nodup_singleton c) (fun c' hc' => ?_) rfl rfl
    (hs.deferral_calls_send fun q c' f heq => ?_) (hs.announced_once_send fun q c' f heq => ?_) rfl
    fun q => ?_
  · rw [hbook] at hf
    obtain hf | rfl := hf.of_announce
    · exact .inl hf
    · exact .inr ⟨hlt, hcall⟩
  · rw [Multiset.mem_singleton.1 hc']
    exact ⟨p, hu⟩
  · obtain ⟨rfl, rfl, -⟩ := Reply.deferral.inj heq
    exact hu.call
  · obtain ⟨rfl, -, rfl⟩ := Reply.deferral.inj heq
    exact hfresh
  · refine (hs.callers q).send rfl rfl rfl (hs.callers q).answer ?_ ?_
    · rintro c' rfl hc'
      obtain rfl := Option.some.inj hc'
      exact hu.active
    · intro c' f heq
      obtain ⟨rfl, -, rfl⟩ := Reply.deferral.inj heq
      -- a handler under the new id would be that of a call, or of an earlier deferral
      by_contra hkey
      obtain hcall' | ⟨c'', hmem⟩ := (hs.callers p).keys g.id hkey
      · exact nomatch hcall.symm.trans hcall'
      · exact hfresh c'' hmem

/-- A completion is written. -/
theorem Inv.write (h : s.write hd x = some t) (hs : Inv s) : Inv t := by
  obtain ⟨⟨hmem, -, hx⟩, heq⟩ := ite_none_right_eq_some.1 h
  cases heq
  obtain ⟨howed, herase⟩ := bind_replaceHandler_erase Handler.queue hmem
    { hd with queue := hd.queue.erase x } hx rfl
  have hbook : ((s.send (.completion x.1 x.2)).replaceHandler hd
      { hd with queue := hd.queue.erase x }).book = s.book.settle x := by
    refine congrArg₂ (fun o l => (⟨s.tables.inFlight, o, l⟩ : Book Key InstanceId InstanceId))
      herase ?_
    rw [State.send, State.replaceHandler, List.map_append]
    rfl
  have hanswers : ((s.send (.completion x.1 x.2)).replaceHandler hd
      { hd with queue := hd.queue.erase x }).answers = s.answers := by
    have hsend : (s.send (.completion x.1 x.2)).answers = s.answers :=
      (answers_send _ _).trans (add_zero _)
    rw [← hsend]
    exact congrArg (_ + ·) (bind_replaceHandler_same Handler.answers hmem rfl)
  refine hs.of_book (hbook ▸ hs.book.settle howed) (fun f hf => .inl (hbook ▸ hf).of_settle)
    (hanswers.trans (add_zero _).symm) Multiset.nodup_zero (by simp) rfl rfl
    (hs.deferral_calls_send (by simp)) (hs.announced_once_send (by simp)) rfl fun q => ?_
  exact (hs.callers q).send rfl rfl rfl ((hs.callers q).answer_replace hmem fun _ ha => ha)
    (by rintro _ _ ⟨⟩) (by simp)

/-- The answer to a call moves from a handler to the ring. -/
theorem Inv.result (hs : Inv s) (hmem : hd ∈ s.handlers) (hreply : hd.reply = some a) :
    Inv ((s.send (.result a.receiver a.functionIid a.thrown)).replaceHandler hd
      { hd with reply := none }) := by
  obtain ⟨hall, herase⟩ := bind_replaceHandler_erase Handler.answers hmem
    { hd with reply := none } (Handler.mem_answers.2 ⟨a, hreply, rfl⟩)
    (by simp [Handler.answers, hreply])
  have hbook : ((s.send (.result a.receiver a.functionIid a.thrown)).replaceHandler hd
      { hd with reply := none }).book = s.book.note := by
    refine congrArg₂ (fun o l => (⟨s.tables.inFlight, o, l⟩ : Book Key InstanceId InstanceId))
      (bind_replaceHandler_same Handler.queue hmem rfl) ?_
    rw [State.send, State.replaceHandler, List.map_append]
    rfl
  have hanswers : ((s.send (.result a.receiver a.functionIid a.thrown)).replaceHandler hd
      { hd with reply := none }).answers = s.answers := by
    refine (answers_send (s.replaceHandler hd { hd with reply := none }) _).trans ?_
    change _ + (s.replaceHandler hd { hd with reply := none }).handlers.bind Handler.answers +
      {a.functionIid} = _
    rw [herase, add_assoc, Multiset.add_comm _ {a.functionIid}, Multiset.singleton_add,
      Multiset.cons_erase hall]
    rfl
  refine hs.of_book (hbook ▸ hs.book.note) (fun f hf => .inl (hbook ▸ hf).of_note)
    (hanswers.trans (add_zero _).symm) Multiset.nodup_zero (by simp) rfl rfl
    (hs.deferral_calls_send (by simp)) (hs.announced_once_send (by simp)) rfl fun q => ?_
  refine (hs.callers q).send rfl rfl rfl ((hs.callers q).answer_replace hmem (by simp)) ?_ (by simp)
  rintro c rfl hc
  cases hc
  exact (hs.callers _).answer hd hmem a hreply rfl

theorem Inv.writeReply (h : s.writeReply hd = some t) (hs : Inv s) : Inv t := by
  unfold State.writeReply at h
  cases hreply : hd.reply with
  | none => rw [hreply] at h; cases h
  | some a =>
    rw [hreply] at h
    obtain ⟨⟨hmem, -, -⟩, heq⟩ := ite_none_right_eq_some.1 h
    cases heq
    exact hs.result hmem hreply

/-! ### The coordinator's sections -/

/-- The round a caller joins is under way, or its id is new. -/
theorem joinRound_cases {g : ProcessGroup} {absent : InstanceId → Bool} {modeTag : ℤ}
    {iid : InstanceId} {object : ℕ} (h : g.joinRound absent n modeTag iid object = .ok b) :
    ((g.barriers.lookup n).bind flight = none ∧ b.processesArrived = ∅ ∧ b.commonFunctionIid = iid) ∨
      g.barriers.lookup n = some b ∧ b.processesPending ≠ ∅ := by
  simp only [ProcessGroup.joinRound] at h
  by_cases hpending : (g.entry n object).processesPending = ∅
  · rw [if_pos hpending] at h
    obtain rfl := Except.ok.inj h
    refine .inl ⟨?_, rfl, rfl⟩
    cases hl : g.barriers.lookup n with
    | none => rfl
    | some b₀ =>
      rw [ProcessGroup.entry, hl] at hpending
      exact if_pos hpending
  · split_ifs at h with hmode
    obtain rfl := Except.ok.inj h
    refine .inr ⟨?_, hpending⟩
    cases hl : g.barriers.lookup n with
    | none => exact absurd (by rw [ProcessGroup.entry, hl]; rfl) hpending
    | some b₀ => rw [ProcessGroup.entry, hl]; rfl

theorem flight_of_pending (h : b.processesPending ≠ ∅) :
    flight b = some ⟨b.commonFunctionIid, b.processesArrived⟩ := if_neg h

theorem inFlight_of_pending (hb : (s.tables.groups group).barriers.lookup n = some b)
    (h : b.processesPending ≠ ∅) :
    s.book.inFlight (.barrier group n) = some ⟨b.commonFunctionIid, b.processesArrived⟩ := by
  change ((s.tables.groups group).barriers.lookup n).bind flight = _
  rw [hb]
  exact flight_of_pending h

theorem flight_of_complete (h : b.processesPending = ∅) : flight b = none := if_pos h

/-- The book of a state in which a barrier has changed and a thread is left with completions. -/
theorem book_put_addHandler (s : State) (group : InstanceId) (n : String) (b : Barrier)
    (h : Handler) :
    ((s.putBarrier group n b).addHandler h).book =
      { s.book with
        inFlight := update s.book.inFlight (.barrier group n) (flight b)
        owed := s.book.owed + h.queue } := by
  rw [book_addHandler, s.book_putBarrier group n b]

/-- The same of a barrier that is erased. -/
theorem book_erase_addHandler (s : State) (group : InstanceId) (n : String) (h : Handler) :
    ((s.eraseBarrier group n).addHandler h).book =
      { s.book.cancel (.barrier group n) with owed := s.book.owed + h.queue } := by
  rw [book_addHandler, s.book_eraseBarrier group n]
  rfl

/-- The caller arrives at a barrier. -/
theorem Inv.arrived (hs : Inv s) {iid : InstanceId} (hu : Unanswered s p c) (hlt : iid < s.nextIid)
    (hcall : s.calls iid = none) (hnew : ¬s.book.Mentions iid)
    (hjoin : (((s.tables.groups group).barriers.lookup n).bind flight = none ∧
        b.processesArrived = ∅ ∧ b.commonFunctionIid = iid) ∨
      (s.tables.groups group).barriers.lookup n = some b ∧ b.processesPending ≠ ∅)
    (honce : ∀ b ∈ (s.tables.groups group).barriers.lookup n, b.processesPending ≠ ∅ →
      ∀ m ∈ s.replyRing, m.announces p b.commonFunctionIid = false) :
    Inv (s.arrived group p n c (b.arrive p)) := by
  by_cases hlast : (b.arrive p).processesPending = ∅
  · -- the last arriver
    rw [State.arrived, if_pos hlast]
    have hbook := book_put_addHandler s group n (b.arrive p)
      { closing := some (group, n, b.object, b.commonFunctionIid)
        queue := completions ((insert p b.processesArrived).erase p) b.commonFunctionIid
        reply := some ⟨p, c, none⟩ }
    rw [flight_of_complete hlast] at hbook
    refine hs.addHandler hbook ?_ (fun f hf => Book.Mentions.of_cancel hf) ?_
    · obtain ⟨-, harrived, -⟩ | ⟨hb, hpending⟩ := hjoin
      · have hcompletions : completions ((insert p b.processesArrived).erase p) b.commonFunctionIid = 0 := by
          rw [harrived]
          simp [completions]
        rw [hcompletions, add_zero]
        exact hs.book.cancel _
      · exact hs.book.complete (inFlight_of_pending hb hpending) (Finset.erase_insert_subset _ _)
    · rintro a ha
      cases ha
      exact hu
  · rw [State.arrived, if_neg hlast]
    have hput := congrArg Book.inFlight (s.book_putBarrier group n (b.arrive p))
    rw [flight_of_pending hlast] at hput
    obtain ⟨-, harrived, hiid⟩ | ⟨hb, hpending⟩ := hjoin
    · refine hs.defer (g := ⟨b.commonFunctionIid, b.processesArrived⟩) hu ?_ hput ?_ ?_ ?_
      · exact .inr ⟨harrived, hiid ▸ hnew⟩
      · exact hiid ▸ hlt
      · exact hiid ▸ hcall
      · exact not_announced (hiid ▸ hnew)
    · have hmention : s.book.Mentions b.commonFunctionIid := .inl ⟨_, _, inFlight_of_pending hb hpending, rfl⟩
      exact hs.defer hu
        (.inl (inFlight_of_pending hb hpending)) hput (hs.id_lt _ hmention) (hs.id_not_call _ hmention)
        (honce b hb hpending)

theorem Inv.barrier (hs : Inv s) {modeTag : ℤ}
    (honce : ∀ b ∈ (s.tables.groups group).barriers.lookup n, b.processesPending ≠ ∅ →
      ∀ m ∈ s.replyRing, m.announces p b.commonFunctionIid = false) :
    Inv (s.barrier group p n modeTag) := by
  have hcalled := hs.call p
  have hu := hs.unanswered_call p
  have hdrawn := hcalled.draw
  have hud : Unanswered (s.call p).draw p s.nextIid := { hu with }
  unfold State.barrier
  cases hb : (s.tables.groups group).barrier
      (ProcessGroup.absent s.tables.draining s.tables.inCollectiveShutdown n) p n modeTag
      (s.call p).nextIid (s.call p).nextObject with
  | error what =>
    dsimp only
    rw [hb]
    refine hdrawn.addAnswer rfl fun a ha => ?_
    cases ha
    exact hud
  | ok b' =>
    dsimp only
    rw [hb]
    unfold ProcessGroup.barrier at hb
    split_ifs at hb with hmember
    obtain ⟨b, hjoin, rfl⟩ : ∃ b, (s.tables.groups group).joinRound
        (ProcessGroup.absent s.tables.draining s.tables.inCollectiveShutdown n) n modeTag
        (s.call p).nextIid (s.call p).nextObject = .ok b ∧ b.arrive p = b' := by
      cases hj : (s.tables.groups group).joinRound
          (ProcessGroup.absent s.tables.draining s.tables.inCollectiveShutdown n) n modeTag
          (s.call p).nextIid (s.call p).nextObject with
      | error what => rw [hj] at hb; cases hb
      | ok b => rw [hj] at hb; exact ⟨b, rfl, Except.ok.inj hb⟩
    exact hdrawn.arrived hud (Nat.lt_succ_self _) hcalled.not_call_nextIid
      hcalled.not_mentions_nextIid (joinRound_cases hjoin) honce

theorem Inv.closeRound (h : s.closeRound hd = some t) (hs : Inv s) : Inv t := by
  unfold State.closeRound at h
  cases hclosing : hd.closing with
  | none => rw [hclosing] at h; cases h
  | some round =>
    obtain ⟨group, n, object, iid⟩ := round
    rw [hclosing] at h
    obtain ⟨hmem, heq⟩ := ite_none_right_eq_some.1 h
    cases heq
    -- the entry is erased, or nothing changes
    have hclosed : Inv (s.setTables (s.tables.setGroup group
        ((s.tables.groups group).closeRound n object iid))) := by
      have hsame : Inv (s.setTables (s.tables.setGroup group (s.tables.groups group))) := by
        have htables : s.tables.setGroup group (s.tables.groups group) = s.tables := by
          rw [Tables.setGroup, update_eq_self]
        rw [htables]
        exact hs
      unfold ProcessGroup.closeRound
      cases (s.tables.groups group).barriers.lookup n with
      | none => exact hsame
      | some b =>
        dsimp only
        by_cases hid : b.object = object ∧ b.commonFunctionIid = iid
        · rw [if_pos hid]
          exact hs.setTables (s.book_eraseBarrier group n) (hs.book.cancel _)
            fun f hf => hf.of_cancel
        · rw [if_neg hid]
          exact hsame
    exact hclosed.replaceHandler hmem rfl rfl

/-! ### Drops -/

/-- Among the barriers that the drop visits, none from which `p` would be dropped between the two
sections of its last arriver. -/
def Undisturbed (s : State) (group p : InstanceId) (scope : BarrierScope) : Prop :=
  ∀ n b, (s.tables.groups group).barriers.lookup n = some b → scope.skips n = false →
    b.processesPending = ∅ → p ∉ b.processesArrived

theorem groups_putBarrier (s : State) (group : InstanceId) (n : String) (b : Barrier) :
    (s.putBarrier group n b).tables.groups group = (s.tables.groups group).put n b :=
  update_self _ _ _

theorem groups_eraseBarrier (s : State) (group : InstanceId) (n : String) :
    (s.eraseBarrier group n).tables.groups group = (s.tables.groups group).erase n :=
  update_self _ _ _

/-- A drop that completes a round owes completions to those who arrived in it. -/
theorem drop_completed {b : Barrier} {done : BarrierCompletion} (h : b.drop p = .completed done) :
    done.commonFunctionIid = b.commonFunctionIid ∧ done.recipients ⊆ b.processesArrived := by
  unfold Barrier.drop at h
  split_ifs at h with huntouched hpending harrived
  all_goals obtain rfl := DropResult.completed.inj h
  · exact ⟨rfl, Finset.insert_subset harrived (Finset.erase_subset _ _)⟩
  · exact ⟨rfl, Finset.erase_subset _ _⟩

theorem Inv.dropFromBarrier (hs : Inv s) {scope : BarrierScope}
    (hcalm : Undisturbed s group p scope) (n : String) :
    Inv (s.dropFromBarrier group p scope n) ∧
      Undisturbed (s.dropFromBarrier group p scope n) group p scope := by
  unfold State.dropFromBarrier
  cases hb : (s.tables.groups group).barriers.lookup n with
  | none => exact ⟨hs, hcalm⟩
  | some b =>
    dsimp only
    by_cases hskip : scope.skips n = true
    · rw [if_pos hskip]
      exact ⟨hs, hcalm⟩
    · rw [if_neg hskip]
      have hvisits : scope.skips n = false := Bool.not_eq_true _ ▸ hskip
      by_cases hpending : b.processesPending = ∅
      · -- its last arriver has not closed it: `p` is not among those who arrived
        have huntouched : b.drop p = .untouched :=
          if_pos ⟨by rw [hpending]; exact Finset.notMem_empty p, hcalm n b hb hvisits hpending⟩
        rw [huntouched]
        exact ⟨hs, hcalm⟩
      · have hflight := inFlight_of_pending hb hpending
        rcases b.drop_cases p with ⟨-, hdrop⟩ | ⟨hleft, hdrop⟩ | ⟨recipients, -, -, -, hdrop⟩
        · rw [hdrop]
          exact ⟨hs, hcalm⟩
        · rw [hdrop]
          refine ⟨?_, fun m b' hb' => ?_⟩
          · have hbook := s.book_putBarrier group n (b.leave p)
            rw [flight_of_pending hleft] at hbook
            exact hs.setTables hbook (hs.book.withdraw hflight p) fun f hf => hf.of_withdraw hflight
          · rw [groups_putBarrier] at hb'
            obtain ⟨-, rfl⟩ | ⟨-, hold⟩ := ProcessGroup.lookup_put_eq_some hb'
            · exact fun _ hempty => absurd hempty hleft
            · exact hcalm m b' hold
        · have hdone := drop_completed hdrop
          rw [hdrop]
          refine ⟨?_, fun m b' hb' => ?_⟩
          · refine hs.addHandler (book_erase_addHandler s group n _) ?_ (fun f hf => ?_) nofun
            · by_cases hinvalid : b.commonFunctionIid = invalidInstanceId
              · rw [if_pos hinvalid, add_zero]
                exact hs.book.cancel _
              · rw [if_neg hinvalid]
                exact hs.book.complete hflight hdone.2
            · exact Book.Mentions.of_cancel hf
          · change ((s.eraseBarrier group n).tables.groups group).barriers.lookup m = _ at hb'
            rw [groups_eraseBarrier] at hb'
            exact hcalm m b' (ProcessGroup.lookup_erase_eq_some hb').2

theorem Inv.drop (hs : Inv s) {scope : BarrierScope}
    (hcalm : Undisturbed s group p scope) : Inv (s.drop group p scope) := by
  unfold State.drop
  generalize (s.tables.groups group).barriers.keys = names
  induction names generalizing s with
  | nil => exact hs
  | cons n names ih =>
    obtain ⟨hs', hcalm'⟩ := hs.dropFromBarrier hcalm n
    exact ih hs' hcalm'

/-! ### Names -/

theorem Inv.waitForInstance (hs : Inv s) {n : String} (honce : ∀ info ∈ s.tables.instancesWaited n,
      ∀ m ∈ s.replyRing, m.announces p info.commonFunctionIid = false) :
    Inv (s.waitForInstance p n) := by
  have hcalled := hs.call p
  have hu := hs.unanswered_call p
  have hdrawn := hcalled.draw
  have hud : Unanswered (s.call p).draw p s.nextIid := { hu with }
  unfold State.waitForInstance
  cases s.tables.instanceIdOfAssignedName n with
  | some iid =>
    refine hcalled.addAnswer rfl fun a ha => ?_
    cases ha
    exact hu
  | none =>
    dsimp only
    have hflight : ∀ info : WaitedInstanceInfo,
        (s.tables.setWaited n (some { info with waiters := insert p info.waiters })).inFlight =
          ((s.call p).draw.book.announce (.waited n) ⟨info.commonFunctionIid, info.waiters⟩ p).inFlight :=
      fun info => s.tables.inFlight_setWaited n _
    cases hinfo : s.tables.instancesWaited n with
    | none =>
      have hfresh : (s.call p).waitedInfo n = ⟨∅, (s.call p).nextIid⟩ := by
        change (s.tables.instancesWaited n).getD _ = _
        rw [hinfo]
        rfl
      rw [hfresh]
      have hnew := hcalled.not_mentions_nextIid
      exact hdrawn.defer (g := ⟨(s.call p).nextIid, ∅⟩) hud (.inr ⟨rfl, hnew⟩) (hflight _)
        (Nat.lt_succ_self _) hcalled.not_call_nextIid (not_announced hnew)
    | some info =>
      have hsame : (s.call p).waitedInfo n = info := by
        change (s.tables.instancesWaited n).getD _ = _
        rw [hinfo]
        rfl
      rw [hsame]
      have hwaited : (s.call p).draw.book.inFlight (.waited n) =
          some ⟨info.commonFunctionIid, info.waiters⟩ := by
        change (s.tables.instancesWaited n).map _ = _
        rw [hinfo]
        rfl
      have hmention : (s.call p).draw.book.Mentions info.commonFunctionIid :=
        .inl ⟨_, _, hwaited, rfl⟩
      exact hdrawn.defer hud (.inl hwaited)
        (hflight info) (hdrawn.id_lt _ hmention) (hdrawn.id_not_call _ hmention)
        (honce info hinfo)

theorem Inv.published (hs : Inv s) (n : String) (iid : InstanceId) {reply : Option Answer}
    (hreply : ∀ a, reply = some a → Unanswered s a.receiver a.functionIid) :
    Inv (s.published n iid reply) := by
  unfold State.published
  cases s.tables.instanceIdOfAssignedName n with
  | some _ => exact hs.addAnswer rfl hreply
  | none =>
    refine hs.addHandler (b := { s.book.cancel (.waited n) with
      owed := s.book.owed + (s.tables.instancesWaited n).elim 0 fun info =>
        completions info.waiters info.commonFunctionIid }) ?_ ?_ (fun f hf => ?_) hreply
    · have hflight := (s.tables.setName n (some iid)).inFlight_setWaited n none
      rw [State.book, State.owed_addHandler]
      refine congrArg (fun i => (⟨i, _, _⟩ : Book Key InstanceId InstanceId)) ?_
      exact hflight
    · cases hinfo : s.tables.instancesWaited n with
      | none =>
        rw [elim_none, add_zero]
        exact hs.book.cancel _
      | some info =>
        have hwaited : s.book.inFlight (.waited n) =
            some ⟨info.commonFunctionIid, info.waiters⟩ := by
          change (s.tables.instancesWaited n).map _ = _
          rw [hinfo]
          rfl
        exact hs.book.complete hwaited subset_rfl
    · exact Book.Mentions.of_cancel hf

theorem Inv.publish (hs : Inv s) (caller : Option InstanceId) (n : String) (iid : InstanceId) :
    Inv (s.publish caller n iid) := by
  cases caller with
  | none => exact hs.published n iid nofun
  | some p =>
    refine (hs.call p).published n iid fun a ha => ?_
    cases ha
    exact hs.unanswered_call p

/-- The tables change in what the book does not read. -/
theorem Inv.setTables_same (hs : Inv s) (h : tables.inFlight = s.tables.inFlight) :
    Inv (s.setTables tables) :=
  hs.setTables (congrArg (fun i => ({ s.book with inFlight := i } : Book Key InstanceId InstanceId)) h)
    hs.book fun _ hf => hf

/-! ### The caller's side -/

/-- Only the caller `p` changes. -/
theorem Inv.setCaller (hs : Inv s) {k : Caller} (hp : CallerOk (s.setCaller p k) p) :
    Inv (s.setCaller p k) := { hs with
  callers q := by
    obtain rfl | hqp := eq_or_ne q p
    · exact hp
    · exact (hs.callers q).of_eq rfl (callers_setCaller_of_ne s k hqp) rfl (hs.callers q).keys }

theorem Inv.cleanup (h : s.cleanup p f = some t) (hs : Inv s) : Inv t := by
  obtain ⟨hdone, heq⟩ := ite_none_right_eq_some.1 h
  cases heq
  have hp := hs.callers p
  refine hs.setCaller ?_
  -- a handler that is needed belongs to a call that waits
  have hactive : ∀ k, (s.callers p).returnHandlers k = some true →
      ((s.callers p).deactivateReturnHandler f).returnHandlers k = some true := by
    intro k hk
    have hne : k ≠ f := by
      rintro rfl
      exact nomatch hk.symm.trans hdone
    rw [Caller.returnHandlers_deactivate_of_ne _ hne, hk]
  have hfree : ∀ k, (s.callers p).returnHandlers k = none →
      ((s.callers p).deactivateReturnHandler f).returnHandlers k = none := by
    intro k hk
    by_cases hkf : k = f
    · rw [hkf, Caller.returnHandlers_deactivate_self]
    · rw [Caller.returnHandlers_deactivate_of_ne _ hkf, hk]
  refine hp.rehandle rfl ?_ ?_ ?_ ?_ hp.answer ?_
  all_goals rw [callers_setCaller_self]
  · rfl
  · rfl
  · exact hactive
  · exact fun _ _ k _ hk => hfree k hk
  · exact fun k hk => hp.keys k fun hnone => hk (hfree k hnone)

theorem log_of_completion (hi : s.replyRing[i]? = some (.completion p f)) :
    s.book.log[i]? = some (.settled p f) := by
  rw [book, List.getElem?_map, hi]
  rfl

/-- A completion under a common id is announced earlier on the ring. -/
theorem Inv.announced_before (hs : Inv s) (hi : s.replyRing[i]? = some (.completion p f)) :
    ∃ j < i, ∃ c, s.replyRing[j]? = some (.deferral p c f) := by
  obtain ⟨j, hj, hann⟩ := hs.book.announced_before i p f (log_of_completion hi)
  rw [State.book, List.getElem?_map, Option.map_eq_some_iff] at hann
  obtain ⟨m, hm, hentry⟩ := hann
  refine ⟨j, hj, ?_⟩
  cases m with
  | deferral q c g =>
    obtain ⟨rfl, rfl⟩ := Entry.announced.inj hentry
    exact ⟨c, hm⟩
  | completion | result => cases hentry

/-- It is written once. -/
theorem Inv.completed_once (hs : Inv s) {j : ℕ} (hi : s.replyRing[i]? = some (.completion p f))
    (hj : s.replyRing[j]? = some (.completion p f)) : i = j :=
  hs.book.settled_once i j p f (log_of_completion hi) (log_of_completion hj)

/-- When a completion is looked up, the handler of the deferred call is there and waits. -/
theorem Inv.rekeyed (hs : Inv s)
    (hi : s.replyRing[(s.callers p).position]? = some (.completion p f)) :
    (s.callers p).returnHandlers f = some true := by
  obtain ⟨j, hj, c, hc⟩ := hs.announced_before hi
  refine (hs.callers p).behind j c f hj hc fun k hk hread => ?_
  exact absurd (hs.completed_once hread hi) (Nat.ne_of_lt hk)

/-- The handler that the next message to `p` needs is there and waits. -/
theorem Inv.found (hs : Inv s) (hm : s.replyRing[(s.callers p).position]? = some m)
    (hp : m.receiver = p) : (s.callers p).returnHandlers m.functionIid = some true := by
  cases m with
  | deferral q c g | result q c thrown => exact (hs.callers p).ahead _ _ c le_rfl hm hp rfl
  | completion q g =>
    obtain rfl : q = p := hp
    exact hs.rekeyed hm

/-- The return handler of `p` under `k` has a use after the message `m`, which is the next one to read. -/
inductive Awaited (s : State) (p : InstanceId) (m : Reply) (k : InstanceId) : Prop
  | call (i : ℕ) (m' : Reply) : (s.callers p).position < i → s.replyRing[i]? = some m' →
      m'.receiver = p → m'.call = some k → Awaited s p m k
  | announced (i : ℕ) (c : InstanceId) : i ≠ (s.callers p).position →
      s.replyRing[i]? = some (.deferral p c k) → m ≠ .completion p k → Awaited s p m k
  | answer (h : Handler) (a : Answer) : h ∈ s.handlers → h.reply = some a → a.receiver = p →
      a.functionIid = k → Awaited s p m k

section

variable {k : InstanceId} (hs : Inv s) (hm : s.replyRing[(s.callers p).position]? = some m)

include hs

/-- It is not under an announced id, when that one is settled or announced by the message. -/
theorem Awaited.ne_announced {i : ℕ} (hi : s.replyRing[i]? = some (.deferral p c f))
    (hlast : m = .completion p f ∨ i = (s.callers p).position) (hk : Awaited s p m k) : k ≠ f := by
  have hmention := mentions_of_getElem? hi
  rintro rfl
  cases hk with
  | call j m' hj hm' hmp hc => exact hs.call_ne (answers_of_mem (List.mem_of_getElem? hm') hc) hmention rfl
  | announced j c' hj hm' hread =>
    exact hlast.elim hread fun hlast => hj ((hs.announced_once j i p c' c k hm' hi).trans hlast)
  | answer h a hh ha hap hak => exact hs.call_ne (answers_of_handler hh ha) hmention hak

include hm

/-- It is not under the id of a call that the message answers. -/
theorem Awaited.ne_call (hc : m.call = some c) (hk : Awaited s p m k) : k ≠ c := by
  have hmem := List.mem_of_getElem? hm
  cases hk with
  | call i m' hi hm' hmp hc' =>
    rintro rfl
    exact absurd (hs.answered_once hm hm' hc hc') (Nat.ne_of_lt hi)
  | announced i c' hi hm' hread =>
    exact (hs.call_ne (answers_of_mem hmem hc) (mentions_of_getElem? hm')).symm
  | answer h a hh ha hap hak => exact hak ▸ hs.not_answered_again hmem hc hh ha

/-- The reply reader of `p` goes one message further, and the handlers are as `handlers` then. -/
theorem Inv.advance {handlers : InstanceId → Option Bool}
    (hkeep : ∀ k, Awaited s p m k → handlers k = (s.callers p).returnHandlers k)
    (hself : ∀ c f, m = .deferral p c f → handlers f = some true)
    (hkeys : ∀ k, handlers k ≠ none →
      s.calls k = some p ∨ ∃ c, Reply.deferral p c k ∈ s.replyRing) :
    Inv (s.setCaller p ⟨(s.callers p).position + 1, handlers, false⟩) := by
  have hp := hs.callers p
  refine hs.setCaller ?_
  constructor
  all_goals rw [callers_setCaller_self]
  case position_le => exact (List.getElem?_eq_some_iff.1 hm).1
  case ahead =>
    intro i m' c hi hm' hmp hc
    refine (hkeep c (.call i m' hi hm' hmp hc)).trans ?_
    exact hp.ahead i m' c (Nat.le_of_succ_le hi) hm' hmp hc
  case ahead_new =>
    intro i c f hi hm'
    refine (hkeep f (.announced i c (Nat.ne_of_gt hi) hm' fun hread => ?_)).trans ?_
    · -- a completion comes after the only deferral that announces its id
      obtain ⟨j, hj, c', hc'⟩ := hs.announced_before (hread ▸ hm)
      exact absurd (hs.announced_once i j p c c' f hm' hc') (hj.trans hi).ne'
    · exact hp.ahead_new i c f (Nat.le_of_succ_le hi) hm'
  case behind =>
    intro i c f hi hm' hunread
    by_cases hlast : i = (s.callers p).position
    · exact hself c f (some.inj (hm.symm.trans (hlast ▸ hm')))
    · have hread : m ≠ .completion p f := fun hread =>
        hunread _ (Nat.lt_succ_self _) (hm.trans (congrArg some hread))
      refine (hkeep f (.announced i c hlast hm' hread)).trans ?_
      exact hp.behind i c f (lt_of_le_of_ne (Nat.le_of_lt_succ hi) hlast) hm' fun j hj => hunread j (Nat.lt_succ_of_lt hj)
  case answer =>
    intro h hmem a ha hap
    exact (hkeep _ (.answer h a hmem ha hap rfl)).trans (hp.answer h hmem a ha hap)
  case keys => exact hkeys

/-- A message to another process is passed over. -/
theorem Inv.read_other (hne : m.receiver ≠ p) :
    Inv (s.setCaller p ⟨(s.callers p).position + 1, (s.callers p).returnHandlers, false⟩) := by
  refine hs.advance hm (fun _ _ => rfl) ?_ (hs.callers p).keys
  rintro c f rfl
  exact absurd rfl hne

end

section

variable (hs : Inv s)

include hs

/-- A deferral moves the handler. -/
theorem Inv.read_deferral (hm : s.replyRing[(s.callers p).position]? = some (.deferral p c f)) :
    Inv (s.setCaller p (({ s.callers p with position := (s.callers p).position + 1 } : Caller).handle
      true (.deferral p c f))) := by
  have hp := hs.callers p
  have hmem := List.mem_of_getElem? hm
  have hcf : c ≠ f := hs.call_ne (answers_of_mem hmem rfl) (mentions_of_deferral hmem)
  have hfree : (s.callers p).returnHandlers f = none := hp.ahead_new _ c f le_rfl hm
  set handlers := update (update (s.callers p).returnHandlers c none) f (some true)
    with hhandlers
  have hcaller : ({ s.callers p with position := (s.callers p).position + 1 } : Caller).handle true
      (.deferral p c f) = ⟨(s.callers p).position + 1, handlers, false⟩ := by
    have hnone : update (s.callers p).returnHandlers c none f = none := by
      rw [update_of_ne hcf.symm, hfree]
    simp [Caller.handle, Caller.replaceReturnHandlerId, Caller.deactivateReturnHandler,
      Caller.activateReturnHandler, hnone, hp.running, hhandlers]
  have hother : ∀ k, k ≠ c → k ≠ f → handlers k = (s.callers p).returnHandlers k := by
    intro k hkc hkf
    rw [hhandlers, update_of_ne hkf, update_of_ne hkc]
  rw [hcaller]
  refine hs.advance hm (fun k hk => ?_) (fun c' f' heq => ?_) (fun k hk => ?_)
  · exact hother k (hk.ne_call hs hm rfl) (hk.ne_announced hs hm (.inr rfl))
  · obtain ⟨-, -, rfl⟩ := Reply.deferral.inj heq
    exact update_self _ _ _
  · by_cases hkf : k = f
    · exact .inr ⟨c, hkf ▸ hmem⟩
    · refine hp.keys k fun hnone => hk ?_
      by_cases hkc : k = c
      · rw [hhandlers, update_of_ne hkf, hkc, update_self]
      · rw [hother k hkc hkf, hnone]

/-- A completion ends the deferred call. -/
theorem Inv.read_completion (hm : s.replyRing[(s.callers p).position]? = some (.completion p f)) :
    Inv (s.setCaller p ⟨(s.callers p).position + 1,
      update (s.callers p).returnHandlers f (some false), false⟩) := by
  obtain ⟨j, hj, c, hc⟩ := hs.announced_before hm
  refine hs.advance hm (fun k hk => ?_) nofun (fun k hk => ?_)
  · exact update_of_ne (hk.ne_announced hs hc (.inl rfl)) _ _
  · by_cases hkf : k = f
    · exact .inr ⟨c, hkf ▸ List.mem_of_getElem? hc⟩
    · rw [update_of_ne hkf] at hk
      exact (hs.callers p).keys k hk

/-- The answer ends the call. -/
theorem Inv.read_result {thrown : Option String}
    (hm : s.replyRing[(s.callers p).position]? = some (.result p c thrown)) :
    Inv (s.setCaller p ⟨(s.callers p).position + 1,
      update (s.callers p).returnHandlers c (some false), false⟩) := by
  have hp := hs.callers p
  refine hs.advance hm (fun k hk => ?_) nofun (fun k hk => ?_)
  · exact update_of_ne (hk.ne_call hs hm rfl) _ _
  · by_cases hkc : k = c
    · refine hp.keys k ?_
      rw [hkc, hp.ahead _ _ c le_rfl hm rfl rfl]
      exact nofun
    · rw [update_of_ne hkc] at hk
      exact hp.keys k hk

end

theorem Inv.read (h : s.read p = some t) (hs : Inv s) : Inv t := by
  have hrunning := (hs.callers p).running
  unfold State.read at h
  rw [hrunning, if_neg Bool.false_ne_true] at h
  cases hm : s.replyRing[(s.callers p).position]? with
  | none => rw [hm] at h; cases h
  | some m =>
    rw [hm] at h
    dsimp only at h
    by_cases hp : m.receiver = p
    · rw [if_pos hp, hs.found hm hp] at h
      cases h
      cases m with
      | deferral q c g =>
        obtain rfl : q = p := hp
        exact hs.read_deferral hm
      | completion q g =>
        obtain rfl : q = p := hp
        rw [Caller.handle, hrunning]
        exact hs.read_completion hm
      | result q c thrown =>
        obtain rfl : q = p := hp
        rw [Caller.handle, hrunning]
        exact hs.read_result hm
    · rw [if_neg hp] at h
      cases h
      rw [hrunning]
      exact hs.read_other hm hp

/-! ### Runs -/

theorem Inv.step {a : Action} (h : s.step a = some t) (hs : Inv s) (horderly : Orderly s a) : Inv t := by
  cases a with
  | barrier group caller n modeTag =>
    cases h
    exact hs.barrier horderly
  | closeRound hd => exact hs.closeRound h
  | drop group p scope =>
    cases h
    refine hs.drop fun n b hb => horderly n ?_ b hb
    rw [← AList.mem_keys, ← AList.lookup_isSome, hb]
    rfl
  | waitForInstance caller n =>
    cases h
    exact hs.waitForInstance horderly
  | publish caller n iid =>
    cases h
    exact hs.publish caller n iid
  | unpublish n | setDraining p b | setInCollectiveShutdown p b =>
    cases h
    exact hs.setTables_same (by funext k; cases k <;> rfl)
  | write hd x => exact hs.write h
  | writeReply hd => exact hs.writeReply h
  | read p => exact hs.read h
  | cleanup p functionIid => exact hs.cleanup h
  | setMembers group ids =>
    cases h
    refine hs.setTables_same ?_
    have hflight := s.tables.inFlight_setGroup group
      { s.tables.groups group with processIds := ids } "" fun m _ => rfl
    exact hflight.trans (update_eq_self _ _)

theorem reachable_inv (h : machine.ReachableUnder Orderly s) : Inv s := by
  refine h.invariant ?_ ?_
  · rintro s rfl
    exact Inv.initial
  · intro s a t _ hs horderly hstep
    exact Inv.step hstep hs horderly

/-- **A deferral precedes its completion.** In every orderly run, any completion under a common
function id stands on the reply ring after a deferral that announced this id to a call of the same
process. When the reply reader of that process looks the completion up, the return handler has been
re-keyed to the id and its call still waits. No reply is discarded as unknown, and no reply reader
is ended by the re-keying. -/
theorem deferral_precedes_completion (h : machine.ReachableUnder Orderly s) :
    (∀ (i : ℕ) p f, s.replyRing[i]? = some (.completion p f) →
      ∃ j < i, ∃ c, s.replyRing[j]? = some (.deferral p c f) ∧ s.calls c = some p) ∧
    (∀ p f, s.replyRing[(s.callers p).position]? = some (.completion p f) →
      (s.callers p).returnHandlers f = some true) ∧
    s.discarded = [] ∧ ∀ p, (s.callers p).terminated = false := by
  have hs := reachable_inv h
  refine ⟨fun i p f hi => ?_, fun p f hi => hs.rekeyed hi, hs.discarded, fun p => (hs.callers p).running⟩
  obtain ⟨j, hj, c, hc⟩ := hs.announced_before hi
  exact ⟨j, hj, c, hc, hs.deferral_calls p c f (List.mem_of_getElem? hc)⟩

/-- **Replies come once.** In every orderly run, a call has at most one first answer on the reply ring,
and a process at most one completion under an id. -/
theorem replies_once (h : machine.ReachableUnder Orderly s) :
    (s.replyRing.filterMap Reply.call).Nodup ∧
    ∀ (i j : ℕ) p f, s.replyRing[i]? = some (.completion p f) →
      s.replyRing[j]? = some (.completion p f) → i = j := by
  have hs := reachable_inv h
  refine ⟨(Multiset.nodup_add.1 hs.answers_nodup).1, fun i j p f hi hj => ?_⟩
  exact hs.book.settled_once i j p f (by simp [book, hi, Reply.entry])
    (by simp [book, hj, Reply.entry])

/-- The group of two processes, `20` and `30`, of the runs below. -/
def pairRun : List Action :=
  [.setMembers 7 {20, 30}, .barrier 7 20 "b" 0, .barrier 7 30 "b" 0]

/-- The last arriver, `30`, before its second section. -/
def lastArriver : Handler where
  closing := some (7, "b", 0, 2)
  queue := {(20, 2)}
  reply := some ⟨30, 3, none⟩

/-- The last arriver completes the round, and `20` reads its deferral and its completion. -/
theorem pair_completed : ∃ s, machine.ReachableUnder Orderly s ∧
    s.replyRing = [.deferral 20 1 2, .completion 20 2, .result 30 3 none] ∧
    (s.callers 20).returnHandlers 2 = some false :=
  exists_reachableUnder_of_exec
    (pairRun ++ [.closeRound lastArriver, .write { lastArriver with closing := none } (20, 2),
      .writeReply { lastArriver with closing := none, queue := 0 }, .read 20, .read 20]) rfl
    (by decide +kernel)

theorem deferral_precedes_completion_pair : ∃ s, machine.ReachableUnder Orderly s ∧
    s.replyRing = [.deferral 20 1 2, .completion 20 2, .result 30 3 none] ∧
    (s.callers 20).returnHandlers 2 = some false ∧ s.discarded = [] := by
  obtain ⟨s, hreach, hring, hhandler⟩ := pair_completed
  exact ⟨s, hreach, hring, hhandler, (deferral_precedes_completion hreach).2.2.1⟩

/-- Two calls have their first answers, and the completion is the only one. -/
theorem replies_once_pair : ∃ s, machine.ReachableUnder Orderly s ∧
    s.replyRing = [.deferral 20 1 2, .completion 20 2, .result 30 3 none] ∧
    (s.replyRing.filterMap Reply.call).Nodup ∧
    ∀ i : ℕ, s.replyRing[i]? = some (.completion 20 2) → i = 1 := by
  obtain ⟨s, hs, hring, -⟩ := pair_completed
  obtain ⟨hcalls, hcompletions⟩ := replies_once hs
  exact ⟨s, hs, hring, hcalls, fun i hi => hcompletions i 1 20 2 hi (by rw [hring]; rfl)⟩

/-- Without the condition: `20`, which had arrived, is dropped after `30` has arrived last and before
`30` has closed the round. The drop completes the round once more, for `30` as well, which was never
deferred and discards the completion. And a process that waits for a name in two calls gets two
deferrals with one id; the second one ends its reply reader. -/
theorem last_arriver_not_deferred :
    (∃ s, machine.Reachable s ∧ .completion 30 2 ∈ s.replyRing ∧
      (∀ m ∈ s.replyRing, m.announces 30 2 = false) ∧ s.discarded = [.completion 30 2]) ∧
    ∃ s, machine.Reachable s ∧ (s.callers 20).terminated = true := by
  constructor
  · exact exists_reachable_of_exec
      (pairRun ++ [.drop 7 20 .all, .write ⟨none, {(20, 2), (30, 2)}, none⟩ (30, 2), .read 30, .read 30])
      rfl (by decide +kernel)
  · exact exists_reachable_of_exec
      [.waitForInstance 20 "x", .waitForInstance 20 "x", .read 20, .read 20] rfl (by decide +kernel)

end Sintra.Process.Deferrals
