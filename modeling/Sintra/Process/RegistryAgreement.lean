import Sintra.Lib.Debts
import Sintra.Lib.Updates
import Sintra.Process.RegistryMoves

/-!
# The registry, the names and those who wait for them
-/

set_option linter.unusedSectionVars false

namespace Sintra.Process.Registry

open Function Machine Option

open Coordinator (Instance managedProcess ReaderIdentity maxPublicTransceiversPerProc mprocId)

variable {κ : Type*} [DecidableEq κ]

/-! ### The books -/

/-- The books agree, and no publication gets between the sections of a claim. -/
structure Inv (s : State κ) : Prop where
  agree : s.books.Agree
  claim : ∀ th p, (s.threads th).cont.claimant = some p →
    th = .service ∧ p ≠ mprocId ∧ s.books.Vacant p
  unpublished : ∀ n, (s.waits.waited n).isSome → s.books.names n = none

section

variable {s t : State κ} {th : Thread κ} {x : ThreadState}

/-- A claim in progress after the turn of a thread was in progress before. -/
theorem Turn.claimant (turn : Turn s t th x) (claim : KeepsClaim (s.threads th) x) {th' : Thread κ}
    {p : InstanceId} (h : (t.threads th').cont.claimant = some p) :
    (s.threads th').cont.claimant = some p := by
  obtain ⟨rfl, hx⟩ | ⟨-, hold⟩ := Updates.update_cases (congrFun turn.threads.symm th')
  · rw [hx] at claim
    obtain hnone | hsame := claim
    · cases hnone.symm.trans h
    · exact hsame.symm.trans h
  · rw [hold, h]

/-- A step that publishes nothing and brings no new claim or wait. -/
theorem Inv.of_vacant (h : Inv s) (hagree : t.books.Agree)
    (hvacant : ∀ p, s.books.Vacant p → t.books.Vacant p)
    (hnames : ∀ n, s.books.names n = none → t.books.names n = none)
    (hclaim : ∀ th p, (t.threads th).cont.claimant = some p → (s.threads th).cont.claimant = some p)
    (hwaits : ∀ n, (t.waits.waited n).isSome → (s.waits.waited n).isSome) : Inv t where
  agree := hagree
  claim th p hp := by
    obtain ⟨hservice, hown, hp'⟩ := h.claim th p (hclaim th p hp)
    exact ⟨hservice, hown, hvacant p hp'⟩
  unpublished n hn := hnames n (h.unpublished n (hwaits n hn))

/-- A step that leaves the books alone and brings no new claim or wait. -/
theorem Inv.of_books (h : Inv s) (hbooks : t.books = s.books)
    (hclaim : ∀ th p, (t.threads th).cont.claimant = some p → (s.threads th).cont.claimant = some p)
    (hwaits : ∀ n, (t.waits.waited n).isSome → (s.waits.waited n).isSome) : Inv t :=
  h.of_vacant (hbooks ▸ h.agree) (fun _ hp => hbooks ▸ hp) (fun _ hn => hbooks ▸ hn) hclaim hwaits

theorem Inv.publish (h : Inv s) (turn : Turn s t th x) (claim : KeepsClaim (s.threads th) x)
    {iid : Instance} {entry : TransceiverPublication} (may : MayPublish s th iid)
    (books : s.books.publishTransceiver iid entry = some t.books)
    (waits : t.waits = s.waits.take entry.name iid) : Inv t where
  agree := h.agree.publishTransceiver books
  claim th' p hp := by
    have hp' := turn.claimant claim hp
    obtain ⟨hservice, hown, hvacant⟩ := h.claim th' p hp'
    obtain ⟨processRegistry, hbooks, -⟩ := Books.publishTransceiver_eq_some books
    have hne : p ≠ iid.process := by
      rintro rfl
      obtain hmproc | ⟨rfl, hnone⟩ := may.2.2
      · exact hown hmproc
      · rw [hservice, hnone] at hp'
        cases hp'
    rw [hbooks]
    exact ⟨hservice, hown, hvacant.enter hne⟩
  unpublished n hn := by
    obtain ⟨processRegistry, hbooks, -⟩ := Books.publishTransceiver_eq_some books
    rw [waits, Waits.take] at hn
    obtain rfl | hname := eq_or_ne n entry.name
    · simp at hn
    · have hn' : (s.waits.waited n).isSome := by simpa [hname] using hn
      rw [hbooks]
      simpa [Books.enter, hname] using h.unpublished n hn'

theorem Inv.claimed (h : Inv s) (turn : Turn s t .service x) {p : InstanceId} {occurrence : ℕ}
    (claimant : x.cont.claimant = some p) (own : p ≠ mprocId) (unknown : s.books.registry p = none)
    (books : t.books = s.books.attach p occurrence) (waits : t.waits = s.waits) : Inv t where
  agree := by
    rw [books]
    exact h.agree.attach p occurrence
  claim th' q hq := by
    rw [turn.threads] at hq
    rw [books]
    obtain rfl | hth := eq_or_ne th' .service
    · rw [update_self, claimant, some.injEq] at hq
      subst hq
      have hvacant : s.books.Vacant p := by
        intro r hr
        rw [unknown] at hr
        cases hr
      exact ⟨rfl, own, hvacant.attach p occurrence⟩
    · rw [update_of_ne hth] at hq
      exact absurd (h.claim th' q hq).1 hth
  unpublished n hn := by
    rw [waits] at hn
    rw [books]
    exact h.unpublished n hn

/-- Everybody who waits after a deferral waited before, or for the name of the deferral. -/
theorem Inv.defer (h : Inv s) {assignedName : String} {sender functionIid fresh : Instance}
    (threads : t.threads = s.threads) (free : s.books.names assignedName = none)
    (books : t.books = s.books)
    (waits : t.waits = s.waits.defer assignedName sender functionIid fresh) : Inv t where
  agree := by
    rw [books]
    exact h.agree
  claim th' p hp := by
    rw [books]
    exact h.claim th' p (threads ▸ hp)
  unpublished n hn := by
    rw [books]
    by_cases hname : n = assignedName
    · rwa [hname]
    · refine h.unpublished n ?_
      rw [waits, Waits.defer] at hn
      simpa [hname] using hn

theorem Inv.move (h : Inv s) {a : Action κ} (hmove : Move a s t) : Inv t := by
  cases hmove with
  | quiet th x turn claim _ _ books waits | result th x turn claim _ _ _ _ _ books waits
  | complete th x turn claim _ _ _ books waits | emit th x turn claim _ _ _ _ _ books waits
  | release th x turn claim _ _ _ books waits =>
    exact h.of_books books (fun _ _ => turn.claimant claim) fun n hn => by rwa [waits] at hn
  | publish th x turn claim iid entry may _ _ books waits => exact h.publish turn claim may books waits
  | unpublishInstance th x turn claim iid publication published _ _ _ _ _ books waits =>
    refine h.of_vacant ?_ ?_ ?_ (fun _ _ => turn.claimant claim) fun n hn => by rwa [waits] at hn
    · rw [books]
      exact h.agree.unpublishInstance published
    · rw [books]
      exact fun p hp => hp.unpublishInstance iid publication
    · intro n hn
      rw [books, Books.unpublishInstance]
      by_cases hname : n = publication.name
      · rw [hname]
        exact update_self _ _ _
      · exact (update_of_ne hname _ _).trans hn
  | unpublishProcess th x turn claim p _ _ _ _ _ _ books waits =>
    refine h.of_vacant ?_ ?_ ?_ (fun _ _ => turn.claimant claim) fun n hn => by rwa [waits] at hn
    · rw [books]
      exact h.agree.unpublishProcess p
    · rw [books]
      exact fun q hq => hq.unpublishProcess p
    · intro n hn
      rw [books]
      exact congrArg (Option.filter _) hn
  | claim x turn p occurrence claimant own unknown _ _ books waits =>
    exact h.claimed turn claimant own unknown books waits
  | withdraw th x turn p claimant ends _ _ books waits =>
    refine h.of_vacant ?_ ?_ ?_ (fun _ _ => turn.claimant (.inl ends))
      fun n hn => by rwa [waits] at hn
    all_goals rw [books]
    · exact h.agree.withdraw (h.claim th p claimant).2.2
    · exact fun q hq => hq.withdraw p
    · exact fun n hn => hn
  | register p threads books waits =>
    refine h.of_vacant ?_ ?_ ?_ (fun _ _ hq => by rwa [threads] at hq)
      fun n hn => by rwa [waits] at hn
    all_goals rw [books]
    · exact h.agree.register p
    · exact fun q hq => hq.register p
    · exact fun n hn => hn
  | defer assignedName sender functionIid threads free books waits =>
    exact h.defer threads free books waits
  | beginInitialization p threads books waits | finalize p threads _ books waits =>
    exact h.of_books books (fun _ _ hp => by rwa [threads] at hp) fun n hn => by rwa [waits] at hn

end

/-- The books agree, whatever the threads do; the registry entry of a process whose claim is in
progress stays empty, because its publications would have to come through the thread that is busy
with the claim; and nobody waits for a name that is published. -/
theorem reachable_inv {s : State κ} (h : (machine κ).Reachable s) : Inv s := by
  refine ReachableUnder.invariant ?_ ?_ h
  · rintro s rfl
    exact ⟨Books.agree_initial, nofun, nofun⟩
  · intro s a t hs hinv _ hstep
    exact hinv.move (step_move (fun th => reachable_tidy hs th) hstep)

/-! ### Those who wait -/

/-- The caller is to be told about the instance id `commonFunctionIid`. -/
def Waits.WaitsOn (w : Waits) (receiver commonFunctionIid : Instance) : Prop :=
  ∃ n info, w.waited n = some info ∧ info.commonFunctionIid = commonFunctionIid ∧
    receiver ∈ info.waiters

/-- Every wait has an instance id of its own, drawn so far, and every caller that was deferred is
still waiting or was taken on. -/
structure Waits.Ok (w : Waits) (drawn : ℕ) : Prop where
  waiters_nodup : ∀ n info, w.waited n = some info → info.waiters.Nodup
  common : ∀ n info, w.waited n = some info →
    ∃ k < drawn, info.commonFunctionIid = makeInstanceId k
  common_inj : ∀ n n' info info', w.waited n = some info → w.waited n' = some info' →
    info.commonFunctionIid = info'.commonFunctionIid → n = n'
  taken_nodup : (w.taken.map fun c => (c.functionIid, c.receiver)).Nodup
  taken_common : ∀ c ∈ w.taken, (∃ k < drawn, c.functionIid = makeInstanceId k) ∧
    ∀ n info, w.waited n = some info → info.commonFunctionIid ≠ c.functionIid
  deferred : ∀ receiver functionIid commonFunctionIid,
    .deferral receiver functionIid commonFunctionIid ∈ w.replyRing →
      w.WaitsOn receiver commonFunctionIid ∨
        ∃ c ∈ w.taken, c.functionIid = commonFunctionIid ∧ c.receiver = receiver

namespace Waits.Ok

variable {w : Waits} {drawn drawn' : ℕ}

theorem mono (h : w.Ok drawn) (hle : drawn ≤ drawn') : w.Ok drawn' := { h with
  common n info hn := by
    obtain ⟨k, hk, heq⟩ := h.common n info hn
    exact ⟨k, hk.trans_le hle, heq⟩
  taken_common c hc := by
    obtain ⟨⟨k, hk, heq⟩, hold⟩ := h.taken_common c hc
    exact ⟨⟨k, hk.trans_le hle, heq⟩, hold⟩ }

theorem write (h : w.Ok drawn) {r : Reply} (hr : ∀ receiver functionIid commonFunctionIid,
      r ≠ .deferral receiver functionIid commonFunctionIid) : (w.write r).Ok drawn := { h with
  deferred receiver functionIid commonFunctionIid hmem := by
    obtain hmem | hmem := List.mem_append.1 hmem
    · exact h.deferred receiver functionIid commonFunctionIid hmem
    · exact absurd (List.mem_singleton.1 hmem).symm (hr _ _ _) }

variable {iid : Instance}

/-- Those who still wait after a publication waited for another name. -/
theorem waited_take {assignedName n : String} {info : Waited}
    (h : (w.take assignedName iid).waited n = some info) :
    n ≠ assignedName ∧ w.waited n = some info := by
  rw [Waits.take] at h
  obtain rfl | hn := eq_or_ne n assignedName
  · simp at h
  · exact ⟨hn, by simpa [hn] using h⟩

theorem mem_completions {info : Waited} {c : Completion} :
    c ∈ info.completions iid ↔
      c.functionIid = info.commonFunctionIid ∧ c.receiver ∈ info.waiters ∧ c.value = some iid := by
  obtain ⟨functionIid, receiver, value⟩ := c
  simp only [Waited.completions, List.mem_map, Completion.mk.injEq]
  constructor
  · rintro ⟨waiter, hmem, rfl, rfl, rfl⟩
    exact ⟨rfl, hmem, rfl⟩
  · rintro ⟨rfl, hmem, rfl⟩
    exact ⟨receiver, hmem, rfl, rfl, rfl⟩

theorem mem_taken_take {assignedName : String} {c : Completion} :
    c ∈ (w.take assignedName iid).taken ↔ c ∈ w.taken ∨
      ∃ info, w.waited assignedName = some info ∧ c ∈ info.completions iid := by
  rw [Waits.take, List.mem_append]
  cases w.waited assignedName <;> simp

theorem take (h : w.Ok drawn) (assignedName : String) (iid : Instance) :
    (w.take assignedName iid).Ok drawn where
  waiters_nodup n info hn := h.waiters_nodup n info (waited_take hn).2
  common n info hn := h.common n info (waited_take hn).2
  common_inj n n' info info' hn hn' :=
    h.common_inj n n' info info' (waited_take hn).2 (waited_take hn').2
  taken_nodup := by
    cases hinfo : w.waited assignedName with
    | none =>
      simp only [Waits.take, hinfo, elim_none, List.append_nil]
      exact h.taken_nodup
    | some info =>
      simp only [Waits.take, hinfo, elim_some, List.map_append]
      refine h.taken_nodup.append ?_ ?_
      · rw [Waited.completions, List.map_map]
        refine (h.waiters_nodup _ _ hinfo).map fun i j hij => ?_
        exact (Prod.ext_iff.1 hij).2
      · intro x hx hx'
        obtain ⟨c, hc, rfl⟩ := List.mem_map.1 hx
        obtain ⟨c', hc', heq⟩ := List.mem_map.1 hx'
        have hcommon := (mem_completions.1 hc').1
        exact (h.taken_common c hc).2 _ _ hinfo (hcommon.symm.trans (Prod.ext_iff.1 heq).1)
  taken_common c hc := by
    obtain hc | ⟨info, hinfo, hc⟩ := mem_taken_take.1 hc
    · obtain ⟨hdrawn, hold⟩ := h.taken_common c hc
      exact ⟨hdrawn, fun n info hn => hold n info (waited_take hn).2⟩
    · have hcommon := (mem_completions.1 hc).1
      refine ⟨hcommon ▸ h.common _ _ hinfo, fun n info' hn heq => ?_⟩
      obtain ⟨hne, hn⟩ := waited_take hn
      exact hne (h.common_inj _ _ _ _ hn hinfo (heq.trans hcommon))
  deferred receiver functionIid commonFunctionIid hmem := by
    obtain ⟨n, info, hn, hcommon, hwaits⟩ | ⟨c, hc, heq⟩ := h.deferred _ _ _ hmem
    · obtain rfl | hname := eq_or_ne n assignedName
      · refine .inr ⟨⟨info.commonFunctionIid, receiver, some iid⟩, ?_, hcommon, rfl⟩
        exact mem_taken_take.2 (.inr ⟨info, hn, mem_completions.2 ⟨rfl, hwaits, rfl⟩⟩)
      · refine .inl ⟨n, info, ?_, hcommon, hwaits⟩
        simpa [Waits.take, hname] using hn
    · exact .inr ⟨c, mem_taken_take.2 (.inl hc), heq⟩

/-- The wait for a name is entered, with an instance id that no other wait and no completion has. -/
theorem enter (h : w.Ok drawn) (assignedName : String) (info : Waited) (hnodup : info.waiters.Nodup)
    (hcommon : ∃ k < drawn, info.commonFunctionIid = makeInstanceId k)
    (hother : ∀ n info', n ≠ assignedName → w.waited n = some info' →
      info'.commonFunctionIid ≠ info.commonFunctionIid)
    (htaken : ∀ c ∈ w.taken, info.commonFunctionIid ≠ c.functionIid)
    (hkept : ∀ info', w.waited assignedName = some info' →
      info.commonFunctionIid = info'.commonFunctionIid ∧ info'.waiters ⊆ info.waiters) :
    { w with waited := update w.waited assignedName (some info) }.Ok drawn := by
  refine ⟨?_, ?_, ?_, h.taken_nodup, ?_, ?_⟩
  · intro n info' hn
    obtain ⟨-, ⟨⟩⟩ | ⟨-, hold⟩ := Updates.update_cases hn
    · exact hnodup
    · exact h.waiters_nodup n info' hold
  · intro n info' hn
    obtain ⟨-, ⟨⟩⟩ | ⟨-, hold⟩ := Updates.update_cases hn
    · exact hcommon
    · exact h.common n info' hold
  · intro n n' i i' hn hn' heq
    obtain ⟨hname, ⟨⟩⟩ | ⟨hne, hwaited⟩ := Updates.update_cases hn
    · obtain ⟨hname', -⟩ | ⟨hne', hwaited'⟩ := Updates.update_cases hn'
      · exact hname.trans hname'.symm
      · exact absurd heq.symm (hother n' i' hne' hwaited')
    · obtain ⟨-, ⟨⟩⟩ | ⟨-, hwaited'⟩ := Updates.update_cases hn'
      · exact absurd heq (hother n i hne hwaited)
      · exact h.common_inj n n' i i' hwaited hwaited' heq
  · intro c hc
    refine ⟨(h.taken_common c hc).1, fun n info' hn => ?_⟩
    obtain ⟨-, ⟨⟩⟩ | ⟨-, hold⟩ := Updates.update_cases hn
    · exact htaken c hc
    · exact (h.taken_common c hc).2 n info' hold
  · intro receiver functionIid commonFunctionIid hmem
    refine (h.deferred receiver functionIid commonFunctionIid hmem).imp_left ?_
    rintro ⟨n, info', hn, hinfo, hreceiver⟩
    by_cases hname : n = assignedName
    · obtain ⟨hsame, hsub⟩ := hkept info' (hname ▸ hn)
      exact ⟨assignedName, info, update_self _ _ _, hsame.trans hinfo, hsub hreceiver⟩
    · exact ⟨n, info', (update_of_ne hname _ _).trans hn, hinfo, hreceiver⟩

/-- A caller that waits is told so. -/
theorem writeDeferral (h : w.Ok drawn) {receiver functionIid commonFunctionIid : Instance}
    (hwaits : w.WaitsOn receiver commonFunctionIid) :
    (w.write (.deferral receiver functionIid commonFunctionIid)).Ok drawn := { h with
  deferred r f c hmem := by
    obtain hmem | hmem := List.mem_append.1 hmem
    · exact h.deferred r f c hmem
    · obtain ⟨rfl, rfl, rfl⟩ := Reply.deferral.inj (List.mem_singleton.1 hmem)
      exact .inl hwaits }

theorem defer (h : w.Ok drawn) (assignedName : String) (sender functionIid : Instance) :
    (w.defer assignedName sender functionIid (makeInstanceId drawn)).Ok
      (if (w.waited assignedName).isSome then drawn else drawn + 1) := by
  cases hinfo : w.waited assignedName with
  | none =>
    have hfresh : ∀ i, (∃ k < drawn, i = makeInstanceId k) → i ≠ makeInstanceId drawn := by
      rintro _ ⟨k, hk, rfl⟩ heq
      exact hk.ne (makeInstanceId_inj.1 heq)
    have hentered := (h.mono (Nat.le_succ drawn)).enter assignedName
      ⟨[sender], makeInstanceId drawn⟩ (List.nodup_singleton sender)
      ⟨drawn, Nat.lt_succ_self _, rfl⟩ (fun n info' _ hn => hfresh _ (h.common n info' hn))
      (fun c hc => (hfresh _ (h.taken_common c hc).1).symm) (by rw [hinfo]; exact nofun)
    rw [Waits.defer, hinfo]
    exact hentered.writeDeferral
      ⟨assignedName, _, update_self _ _ _, rfl, List.mem_singleton_self sender⟩
  | some info =>
    have hkept : ∀ info', w.waited assignedName = some info' →
        info.commonFunctionIid = info'.commonFunctionIid ∧
          info'.waiters ⊆ info.waiters.insert sender := by
      intro info' hinfo'
      obtain rfl : info = info' := mem_unique hinfo hinfo'
      exact ⟨rfl, fun x hx => List.mem_insert_of_mem hx⟩
    have hentered := h.enter assignedName { info with waiters := info.waiters.insert sender }
      (h.waiters_nodup _ _ hinfo).insert (h.common assignedName info hinfo)
      (fun n info' hne hn heq => hne (h.common_inj _ _ _ _ hn hinfo heq))
      (fun c hc => (h.taken_common c hc).2 assignedName info hinfo) hkept
    rw [Waits.defer, hinfo]
    exact hentered.writeDeferral
      ⟨assignedName, _, update_self _ _ _, rfl, List.mem_insert_self⟩

end Waits.Ok

/-! ### Who has been answered -/

/-- The completion that was written, if it is one. -/
def Reply.completion? : Reply → Option Completion
  | .completion c => some c
  | .deferral .. | .result .. => none

/-- The completions written so far. -/
def Waits.sent (w : Waits) : List Completion := w.replyRing.filterMap Reply.completion?

@[simp] theorem Waits.sent_write (w : Waits) (r : Reply) :
    (w.write r).sent = w.sent ++ r.completion?.toList := by
  rw [sent, write, List.filterMap_append]
  cases h : r.completion? <;> simp [h, sent]

/-- What was taken on has been written, or some thread has still to write it. -/
structure Ledger (s : State κ) : Prop where
  waits : s.waits.Ok s.drawn
  account : ∃ unwritten, Owed (ThreadState.owed ∘ s.threads) unwritten ∧
    s.waits.taken.Perm (s.waits.sent ++ unwritten)

section

variable {s t : State κ} {th : Thread κ} {x : ThreadState}

theorem Turn.owed (turn : Turn s t th x) :
    ThreadState.owed ∘ t.threads = update (ThreadState.owed ∘ s.threads) th x.owed := by
  rw [turn.threads, comp_update]

/-- A step of a thread that owes what it owed, with at most a result written. -/
theorem Ledger.of_same (h : Ledger s) (turn : Turn s t th x) (owed : x.owed = (s.threads th).owed)
    (hok : t.waits.Ok s.drawn) (htaken : t.waits.taken = s.waits.taken)
    (hsent : t.waits.sent = s.waits.sent) : Ledger t := by
  obtain ⟨unwritten, howed, hperm⟩ := h.account
  refine ⟨hok.mono turn.drawn, unwritten, ?_, ?_⟩
  · rw [turn.owed]
    exact howed.update_same owed
  · rwa [htaken, hsent]

/-- A step that concerns no thread. -/
theorem Ledger.of_threads (h : Ledger s) (threads : t.threads = s.threads)
    (hok : t.waits.Ok t.drawn) (htaken : t.waits.taken = s.waits.taken)
    (hsent : t.waits.sent = s.waits.sent) : Ledger t := by
  refine ⟨hok, ?_⟩
  rw [threads, htaken, hsent]
  exact h.account

theorem Ledger.publish (h : Ledger s) (turn : Turn s t th x) {n : String} {iid : Instance}
    (ready : (s.threads th).task = .ready)
    (owed : x.owed = (s.waits.waited n).elim [] (·.completions iid))
    (waits : t.waits = s.waits.take n iid) : Ledger t := by
  obtain ⟨unwritten, howed, hperm⟩ := h.account
  refine ⟨?_, unwritten ++ x.owed, ?_, ?_⟩
  · rw [waits]
    exact (h.waits.take n iid).mono turn.drawn
  · rw [turn.owed]
    exact howed.incur (ThreadState.owed_of_task ready) x.owed
  · rw [waits, owed, ← List.append_assoc]
    exact hperm.append_right _

theorem Ledger.complete (h : Ledger s) (turn : Turn s t th x) {c : Completion}
    (owed : (s.threads th).owed = c :: x.owed) (waits : t.waits = s.waits.write (.completion c)) :
    Ledger t := by
  obtain ⟨unwritten, howed, hperm⟩ := h.account
  obtain ⟨rest, hrest, howed'⟩ := howed.settle owed
  refine ⟨?_, rest, ?_, ?_⟩
  · rw [waits]
    exact (h.waits.write (r := .completion c) fun _ _ _ => nofun).mono turn.drawn
  · rw [turn.owed]
    exact howed'
  · rw [waits, Waits.sent_write, List.append_assoc]
    exact hperm.trans (hrest.append_left _)

theorem Ledger.move (h : Ledger s) {a : Action κ} (hmove : Move a s t) : Ledger t := by
  cases hmove with
  | quiet th x turn _ owed _ _ waits | claim x turn _ _ _ _ _ owed _ _ waits
  | withdraw th x turn _ _ _ owed _ _ waits | emit th x turn _ _ _ owed _ _ _ waits
  | release th x turn _ owed _ _ _ waits =>
    exact h.of_same turn owed (waits ▸ h.waits) (by rw [waits]) (by rw [waits])
  | publish th x turn _ iid entry may owed _ _ waits => exact h.publish turn may.1 owed waits
  | unpublishInstance th x turn _ _ _ _ ready _ _ owed _ _ waits
  | unpublishProcess th x turn _ _ _ _ ready _ owed _ _ waits =>
    refine h.of_same turn ?_ (waits ▸ h.waits) (by rw [waits]) (by rw [waits])
    exact owed.trans (ThreadState.owed_of_task ready).symm
  | register p threads _ waits _ drawn | beginInitialization p threads _ waits _ drawn
  | finalize p threads _ _ waits _ drawn =>
    exact h.of_threads threads (by rw [waits, drawn]; exact h.waits) (by rw [waits]) (by rw [waits])
  | result th x turn _ receiver functionIid value owed _ _ waits =>
    have hok := h.waits.write (r := .result receiver functionIid value) fun _ _ _ => nofun
    refine h.of_same turn owed (waits ▸ hok) (by rw [waits]; rfl) ?_
    rw [waits, Waits.sent_write]
    exact List.append_nil _
  | defer assignedName sender functionIid threads _ _ waits _ drawn =>
    refine h.of_threads threads ?_ (by rw [waits]; rfl) ?_
    · rw [waits, drawn]
      exact h.waits.defer assignedName sender functionIid
    · rw [waits]
      exact (Waits.sent_write _ _).trans (List.append_nil _)
  | complete th x turn _ c owed _ _ waits => exact h.complete turn owed waits

end

section

variable {s t : State κ}

variable {c : Completion}

/-- Who waits for a name goes on waiting, unless the step publishes the name and takes them on. -/
theorem Move.waited {a : Action κ} (hmove : Move a s t) {n : String} {info : Waited}
    (hn : s.waits.waited n = some info) :
    (∃ iid, t.waits.waited n = none ∧ t.books.names n = some iid ∧
      t.waits.taken = s.waits.taken ++ info.completions iid) ∨
    ∃ info', t.waits.waited n = some info' ∧ info'.commonFunctionIid = info.commonFunctionIid ∧
      info.waiters ⊆ info'.waiters := by
  have hsame : t.waits.waited n = s.waits.waited n → ∃ info', t.waits.waited n = some info' ∧
      info'.commonFunctionIid = info.commonFunctionIid ∧ info.waiters ⊆ info'.waiters :=
    fun h => ⟨info, h.trans hn, rfl, List.Subset.refl _⟩
  cases hmove with
  | publish th x turn _ iid entry _ _ _ books waits =>
    obtain rfl | hname := eq_or_ne n entry.name
    · obtain ⟨processRegistry, hbooks, -⟩ := Books.publishTransceiver_eq_some books
      refine .inl ⟨iid, ?_, ?_, ?_⟩
      · rw [waits]
        exact update_self _ _ _
      · rw [hbooks]
        exact update_self _ _ _
      · rw [waits, Waits.take, hn]
        rfl
    · exact .inr (hsame (by rw [waits]; exact update_of_ne hname _ _))
  | defer assignedName sender functionIid _ _ _ waits =>
    obtain rfl | hname := eq_or_ne n assignedName
    · refine .inr ⟨{ info with waiters := info.waiters.insert sender }, ?_, rfl,
        fun x hx => List.mem_insert_of_mem hx⟩
      rw [waits, Waits.defer, hn]
      exact update_self _ _ _
    · exact .inr (hsame (by rw [waits]; exact update_of_ne hname _ _))
  | quiet _ _ _ _ _ _ _ waits | unpublishInstance _ _ _ _ _ _ _ _ _ _ _ _ _ waits
  | unpublishProcess _ _ _ _ _ _ _ _ _ _ _ _ waits | claim _ _ _ _ _ _ _ _ _ _ waits
  | withdraw _ _ _ _ _ _ _ _ _ waits | register _ _ _ waits | beginInitialization _ _ _ waits
  | finalize _ _ _ _ waits | emit _ _ _ _ _ _ _ _ _ _ waits | release _ _ _ _ _ _ _ _ waits =>
    exact .inr (hsame (by rw [waits]))
  | result _ _ _ _ _ _ _ _ _ _ waits | complete _ _ _ _ _ _ _ _ waits =>
    exact .inr (hsame (by rw [waits]; rfl))

end

end Sintra.Process.Registry
