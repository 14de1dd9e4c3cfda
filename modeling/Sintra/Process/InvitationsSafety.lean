import Sintra.Lib.Updates
import Sintra.Process.Invitations

/-!
# What a claim can rely on
-/

namespace Sintra.Process.Invitations

open Function State Option

open Coordinator (Instance managedProcess mprocId)
open Registry (Books makeInstanceId)

/-! ### Tokens and records -/

theorem foldl_or_eq_zero (l : List UInt8) (diff : UInt8) :
    l.foldl (fun diff x => diff ||| x) diff = 0 ↔ diff = 0 ∧ ∀ x ∈ l, x = 0 := by
  induction l generalizing diff with
  | nil => simp
  | cons x l ih =>
    rw [List.foldl_cons, ih, UInt8.or_eq_zero_iff]
    simp [and_assoc]

theorem zipWith_xor_eq_zero {lhs rhs : List UInt8} (h : lhs.length = rhs.length) :
    (∀ x ∈ List.zipWith (fun x y => x ^^^ y) lhs rhs, x = 0) ↔ lhs = rhs := by
  induction lhs generalizing rhs with
  | nil =>
    simp [List.length_eq_zero_iff.1 h.symm]
  | cons x lhs ih =>
    cases rhs with
    | nil => cases h
    | cons y rhs =>
      rw [List.zipWith_cons_cons, List.forall_mem_cons, ih (Nat.succ.inj h), List.cons.injEq,
        UInt8.xor_eq_zero_iff]

/-- The comparison without early exit is equality. -/
theorem externalAttachTokensEqual_iff {lhs rhs : List UInt8} :
    externalAttachTokensEqual lhs rhs = true ↔ lhs = rhs := by
  rw [externalAttachTokensEqual, Bool.and_eq_true, beq_iff_eq, beq_iff_eq, foldl_or_eq_zero]
  constructor
  · rintro ⟨hlength, -, hzero⟩
    exact (zipWith_xor_eq_zero hlength).1 hzero
  · rintro rfl
    exact ⟨rfl, rfl, (zipWith_xor_eq_zero rfl).2 rfl⟩

namespace Records

theorem lookup_map (l : Records) (f : InvitationRecord → InvitationRecord) (p : InstanceId) :
    (l.map f).lookup p = (l.lookup p).map f :=
  List.dlookup_map₂ (f := fun _ => f) p

theorem mem_occurrences {l : Records} {f : InvitationRecord → Bool} {x : InstanceId × ℕ} :
    x ∈ l.occurrences f ↔ ∃ r, l.lookup x.1 = some r ∧ f r = true ∧ r.occurrence = x.2 := by
  obtain ⟨p, n⟩ := x
  simp only [occurrences, List.mem_map, List.mem_filter, Prod.mk.injEq]
  constructor
  · rintro ⟨⟨q, r⟩, ⟨hmem, hf⟩, rfl, rfl⟩
    exact ⟨r, AList.mem_lookup_iff.2 hmem, hf, rfl⟩
  · rintro ⟨r, hr, hf, rfl⟩
    exact ⟨⟨p, r⟩, ⟨AList.mem_lookup_iff.1 hr, hf⟩, rfl, rfl⟩

/-- Every record was there before, with its occurrence, and was pending if it is. -/
def Descends (l l' : Records) : Prop :=
  ∀ p r', l'.lookup p = some r' → ∃ r, l.lookup p = some r ∧ r'.occurrence = r.occurrence ∧
    (r'.state = .pending → r.state = .pending)

theorem Descends.refl (l : Records) : l.Descends l := fun _ r hr => ⟨r, hr, rfl, id⟩

theorem Descends.trans {l l' l'' : Records} (h : l.Descends l') (h' : l'.Descends l'') :
    l.Descends l'' := by
  intro p r'' hr''
  obtain ⟨r', hr', hocc', hpending'⟩ := h' p r'' hr''
  obtain ⟨r, hr, hocc, hpending⟩ := h p r' hr'
  exact ⟨r, hr, hocc'.trans hocc, hpending ∘ hpending'⟩

theorem descends_erase (l : Records) (p : InstanceId) : l.Descends (l.erase p) := by
  intro q r hr
  by_cases hq : q = p
  · rw [hq, AList.lookup_erase] at hr
    cases hr
  · rw [AList.lookup_erase_ne hq] at hr
    exact ⟨r, hr, rfl, id⟩

theorem descends_reject {l : Records} {p : InstanceId} {r : InvitationRecord}
    (hr : l.lookup p = some r) (expiresAt : ℕ) : l.Descends (l.insert p (r.reject expiresAt)) := by
  intro q r' hr'
  obtain rfl | hq := eq_or_ne q p
  · rw [AList.lookup_insert, some.injEq] at hr'
    subst hr'
    exact ⟨r, hr, rfl, nofun⟩
  · rw [AList.lookup_insert_ne hq] at hr'
    exact ⟨r', hr', rfl, id⟩

theorem descends_transition (l : Records) (now : ℕ) : l.Descends (l.map (·.transition now)) := by
  intro p r' hr'
  rw [lookup_map, map_eq_some_iff] at hr'
  obtain ⟨r, hr, rfl⟩ := hr'
  refine ⟨r, hr, ?_, ?_⟩
  all_goals unfold InvitationRecord.transition
  · split_ifs <;> rfl
  · split_ifs with _ hpending
    · exact nofun
    · exact nofun
    · exact id

/-- The end of a pass of the cleanup loop. -/
theorem descends_cleanUp (processIds : List InstanceId) (l : Records) :
    l.Descends (processIds.foldl (fun l p =>
      if (l.lookup p).any (·.state = .removing) then l.erase p else l) l) := by
  induction processIds generalizing l with
  | nil => exact .refl l
  | cons p processIds ih =>
    rw [List.foldl_cons]
    refine Descends.trans ?_ (ih _)
    split
    · exact l.descends_erase p
    · exact .refl l

end Records

/-! ### Occurrences -/

variable {κ : Type*}

/-- What the ghosts say about the records. -/
structure Logs (s : State κ) : Prop where
  record : ∀ p r, s.invitations.lookup p = some r →
    p ≠ mprocId ∧ s.membership.groupsOfProcess p = ∅ ∧ (p, r.occurrence) ∈ s.reserved ∧
      (p, r.occurrence) ∉ s.claimed ∧ (r.state = .pending → (p, r.occurrence) ∉ s.retired)
  issued : ∀ x ∈ s.reserved, x.2 ≤ s.nextOccurrence x.1
  increasing : s.reserved.Pairwise fun x y => x.1 = y.1 → x.2 < y.2
  claimed_nodup : s.claimed.Nodup
  claimed_reserved : ∀ x ∈ s.claimed, x ∈ s.reserved
  retired_reserved : ∀ x ∈ s.retired, x ∈ s.reserved
  retired_claimed : ∀ x ∈ s.retired, x ∉ s.claimed

section

variable {s t : State κ}

/-- A step that makes no record and claims none; the occurrences in `extra` stop being pending. -/
structure Shrinks (s t : State κ) (extra : List (InstanceId × ℕ)) : Prop where
  records : s.invitations.Descends t.invitations
  retired : t.retired = s.retired ++ extra
  recorded : ∀ x ∈ extra, ∃ r, s.invitations.lookup x.1 = some r ∧ r.occurrence = x.2
  gone : ∀ p r, t.invitations.lookup p = some r → r.state = .pending → (p, r.occurrence) ∉ extra
  groups : t.membership.groupsOfProcess = s.membership.groupsOfProcess
  next : s.nextOccurrence ≤ t.nextOccurrence
  reserved : t.reserved = s.reserved
  claimed : t.claimed = s.claimed

theorem Shrinks.nil (hrecords : s.invitations.Descends t.invitations)
    (hgroups : t.membership.groupsOfProcess = s.membership.groupsOfProcess)
    (hnext : s.nextOccurrence ≤ t.nextOccurrence) (hreserved : t.reserved = s.reserved)
    (hclaimed : t.claimed = s.claimed) (hretired : t.retired = s.retired) : Shrinks s t [] :=
  ⟨hrecords, by rw [hretired, List.append_nil], nofun, fun _ _ _ _ => List.not_mem_nil, hgroups, hnext,
    hreserved, hclaimed⟩

theorem Logs.shrink (h : Logs s) {extra : List (InstanceId × ℕ)} (hst : Shrinks s t extra) :
    Logs t where
  record p r hr := by
    obtain ⟨r₀, hr₀, hocc, hpending⟩ := hst.records p r hr
    obtain ⟨hown, hnone, hres, hcl, hret⟩ := h.record p r₀ hr₀
    rw [hst.groups, hst.reserved, hst.claimed, hst.retired, hocc]
    refine ⟨hown, hnone, hres, hcl, fun hp hmem => ?_⟩
    obtain hmem | hmem := List.mem_append.1 hmem
    · exact hret (hpending hp) hmem
    · exact hst.gone p r hr hp (hocc ▸ hmem)
  issued x hx := (h.issued x (hst.reserved ▸ hx)).trans (hst.next x.1)
  increasing := hst.reserved ▸ h.increasing
  claimed_nodup := hst.claimed ▸ h.claimed_nodup
  claimed_reserved := by
    rw [hst.claimed, hst.reserved]
    exact h.claimed_reserved
  retired_reserved x hx := by
    rw [hst.reserved]
    obtain hx | hx := List.mem_append.1 (hst.retired ▸ hx)
    · exact h.retired_reserved x hx
    · obtain ⟨r, hr, hocc⟩ := hst.recorded x hx
      have hres := (h.record x.1 r hr).2.2.1
      rwa [hocc] at hres
  retired_claimed x hx := by
    rw [hst.claimed]
    obtain hx | hx := List.mem_append.1 (hst.retired ▸ hx)
    · exact h.retired_claimed x hx
    · obtain ⟨r, hr, hocc⟩ := hst.recorded x hx
      have hcl := (h.record x.1 r hr).2.2.2.1
      rwa [hocc] at hcl

/-- A step that leaves records and ghosts alone. -/
theorem Logs.same (h : Logs s) (hrecords : t.invitations = s.invitations)
    (hgroups : t.membership.groupsOfProcess = s.membership.groupsOfProcess)
    (hnext : s.nextOccurrence ≤ t.nextOccurrence) (hreserved : t.reserved = s.reserved)
    (hclaimed : t.claimed = s.claimed) (hretired : t.retired = s.retired) : Logs t :=
  h.shrink (.nil (hrecords ▸ .refl _) hgroups hnext hreserved hclaimed hretired)

end

/-! ### Claims -/

/-- What a claim has made of the membership it has found. -/
def Membership.during (before : Membership) (call : Call) : Phase → Membership
  | .waiting | .checked | .bound => before
  | .attached | .admitted | .refused =>
    { before with books := before.books.attach call.process call.occurrence }
  | .activated | .failed =>
    { before with
      books := before.books.attach call.process call.occurrence
      inCollectiveShutdown := update before.inCollectiveShutdown call.process false
      draining := update before.draining call.process false }

/-- The claim has attached its process. -/
def Phase.attaches : Phase → Bool
  | .waiting | .checked | .bound => false
  | .attached | .admitted | .refused | .activated | .failed => true

/-- The claim was entitled to what it does. -/
structure Entitled (s : State κ) (c : Claim) : Prop where
  sender : c.call.sender = c.call.process
  custody : c.call.custodyIdentity = 0
  record : ∃ r, s.invitations.lookup c.call.process = some r ∧ r.state = .pending ∧
    r.occurrence = c.call.occurrence ∧ r.token = c.call.token ∧ c.checkedAt < r.expiresAt
  clock : c.checkedAt ≤ s.now
  admission : s.teardownAdmissionClosed = false

/-- What a claim that holds the mutex has found and done. -/
structure Held (s : State κ) (c : Claim) : Prop where
  entitled : Entitled s c
  before : ∃ before, c.before = some before ∧ before.Ok s.drawn ∧
    s.membership = before.during c.call c.phase ∧
    (c.phase.attaches = true → before.books.registry c.call.process = none)

structure ClaimOk (s : State κ) (th : κ) (c : Claim) : Prop where
  sender : c.call.sender = c.call.process
  issued : c.call.custodyIdentity = 0 → c.call.occurrence ≤ s.nextOccurrence c.call.process
  unheld : c.phase = .waiting → c.before = none
  held : c.phase ≠ .waiting → s.lock = some th ∧ Held s c

/-- There is a record the claim might have been made for. -/
def State.Matches (s : State κ) (call : Call) : Prop :=
  call.custodyIdentity = 0 ∧
    ∃ r, s.invitations.lookup call.process = some r ∧ r.occurrence = call.occurrence

/-- The task ends in the marking of the attached processes. -/
def Task.drains : Task → Bool
  | .cancelAll drain | .removeReaders _ drain => drain
  | .drainAttached => true

/-- A shutdown has emptied the records. -/
def State.Cancelled (s : State κ) : Prop :=
  ∃ t ∈ s.tasks, t = .drainAttached ∨ ∃ processIds, t = .removeReaders processIds true

structure Inv (s : State κ) : Prop where
  membership : s.membership.Ok s.drawn
  logs : Logs s
  claims : ∀ th c, s.claims th = some c → ClaimOk s th c
  tasks : ∀ t ∈ s.tasks, t.drains = true → s.shutdown = true
  cancelled : s.Cancelled → ∀ th c, s.claims th = some c →
    c.phase = .waiting ∧ ¬s.Matches c.call

section

variable {s t : State κ} {p : InstanceId} {drawn : ℕ} {r : InvitationRecord}

variable {m : Membership}

theorem Membership.Ok.of_bits {m' : Membership} (h : m.Ok drawn) (hbooks : m'.books = m.books)
    (hgroups : m'.groups = m.groups) (hgroupsOf : m'.groupsOfProcess = m.groupsOfProcess) :
    m'.Ok drawn where
  attached := hbooks ▸ h.attached
  tables := by
    rw [Membership.tables, hgroups, hgroupsOf]
    exact h.tables

/-- What a step leaves as the claims have found it. -/
structure Same (s t : State κ) : Prop where
  lock : t.lock = s.lock := by rfl
  membership : t.membership = s.membership := by rfl
  drawn : t.drawn = s.drawn := by rfl
  records : t.invitations = s.invitations := by rfl
  now : s.now ≤ t.now := by rfl
  next : s.nextOccurrence ≤ t.nextOccurrence := by rfl
  admission : t.teardownAdmissionClosed = s.teardownAdmissionClosed := by rfl

variable {th : κ} {c : Claim}

/-- Claims go on as before when what they hold on to does. -/
theorem ClaimOk.of_same (h : ClaimOk s th c) (hst : Same s t) :
    ClaimOk t th c := { h with
  issued hc := (h.issued hc).trans (hst.next _)
  held hphase := by
    obtain ⟨hheld, hentitled, hbefore⟩ := h.held hphase
    refine ⟨hst.lock.trans hheld, ⟨hentitled.sender, hentitled.custody, ?_,
      hentitled.clock.trans hst.now, hst.admission.trans hentitled.admission⟩, ?_⟩
    · rw [hst.records]
      exact hentitled.record
    · rw [hst.membership, hst.drawn]
      exact hbefore }

/-- While nobody holds the mutex, all claims wait for it. -/
theorem ClaimOk.waiting (h : ClaimOk s th c) (hfree : s.lock ≠ some th) :
    c.phase = .waiting := by
  by_contra hphase
  exact hfree (h.held hphase).1

theorem ClaimOk.of_waiting (h : ClaimOk s th c) (hphase : c.phase = .waiting)
    (hnext : s.nextOccurrence ≤ t.nextOccurrence) : ClaimOk t th c := { h with
  issued hc := (h.issued hc).trans (hnext _)
  held hne := absurd hphase hne }

theorem State.Cancelled.of_le (h : t.Cancelled)
    (hle : ∀ task ∈ t.tasks, task ∈ s.tasks ∨ ∃ drain, task = .cancelAll drain) : s.Cancelled := by
  obtain ⟨task, hmem, htask⟩ := h
  obtain hmem | ⟨drain, rfl⟩ := hle task hmem
  · exact ⟨task, hmem, htask⟩
  · obtain htask | ⟨_, htask⟩ := htask <;> cases htask

/-- A task that comes after the records were emptied goes over into another. -/
theorem cancelled_of_cons {task task' : Task} (hmem : task ∈ s.tasks)
    (htask : task' = .drainAttached ∨ (∃ processIds, task' = .removeReaders processIds true) →
      task = .drainAttached ∨ ∃ processIds, task = .removeReaders processIds true)
    (hcan : ∃ t' ∈ task' ::ₘ s.tasks.erase task, t' = .drainAttached ∨
      ∃ processIds, t' = .removeReaders processIds true) : s.Cancelled := by
  obtain ⟨t', ht', hkind⟩ := hcan
  obtain rfl | ht' := Multiset.mem_cons.1 ht'
  · exact ⟨task, hmem, htask hkind⟩
  · exact ⟨t', Multiset.mem_of_mem_erase ht', hkind⟩

theorem le_update_succ (f : InstanceId → ℕ) (p : InstanceId) : f ≤ update f p (f p + 1) :=
  le_update_self_iff.2 (Nat.le_succ _)

/-- A record with the next occurrence is made for a process that is in no group. -/
theorem Logs.reserve (h : Logs s) (hown : p ≠ mprocId)
    (hgroups : s.membership.groupsOfProcess p = ∅) (hocc : r.occurrence = s.nextOccurrence p + 1)
    (hmembership : t.membership = s.membership) (hrecords : t.invitations = s.invitations.insert p r)
    (hnext : t.nextOccurrence = update s.nextOccurrence p (s.nextOccurrence p + 1))
    (hreserved : t.reserved = s.reserved ++ [(p, r.occurrence)]) (hclaimed : t.claimed = s.claimed)
    (hretired : t.retired = s.retired) : Logs t := by
  have hfresh : (p, r.occurrence) ∉ s.reserved := by
    intro hmem
    have hle := h.issued _ hmem
    dsimp only at hle
    omega
  refine ⟨fun q r' hr' => ?_, fun x hx => ?_, ?_, hclaimed ▸ h.claimed_nodup, ?_, ?_, ?_⟩
  · rw [hmembership, hreserved, hclaimed, hretired]
    rw [hrecords] at hr'
    obtain rfl | hq := eq_or_ne q p
    · rw [AList.lookup_insert, some.injEq] at hr'
      subst hr'
      refine ⟨hown, hgroups, List.mem_append_right _ (List.mem_singleton_self _), ?_, fun _ => ?_⟩
      · exact fun hmem => hfresh (h.claimed_reserved _ hmem)
      · exact fun hmem => hfresh (h.retired_reserved _ hmem)
    · rw [AList.lookup_insert_ne hq] at hr'
      obtain ⟨hown', hnone, hres, hcl, hret⟩ := h.record q r' hr'
      exact ⟨hown', hnone, List.mem_append_left _ hres, hcl, hret⟩
  · rw [hnext]
    rw [hreserved] at hx
    obtain hx | hx := List.mem_append.1 hx
    · exact (h.issued x hx).trans (le_update_succ _ _ _)
    · obtain rfl := List.mem_singleton.1 hx
      rw [update_self, hocc]
  · rw [hreserved, List.pairwise_append]
    refine ⟨h.increasing, List.pairwise_singleton _ _, fun x hx y hy hsame => ?_⟩
    obtain rfl := List.mem_singleton.1 hy
    have hle := h.issued x hx
    dsimp only at hsame ⊢
    rw [hsame] at hle
    omega
  · rw [hclaimed, hreserved]
    exact fun x hx => List.mem_append_left _ (h.claimed_reserved x hx)
  · rw [hretired, hreserved]
    exact fun x hx => List.mem_append_left _ (h.retired_reserved x hx)
  · rw [hretired, hclaimed]
    exact h.retired_claimed

/-- A record is claimed. -/
theorem Logs.claim (h : Logs s) (hr : s.invitations.lookup p = some r)
    (hpending : r.state = .pending) (hgroups : ∀ q, q ≠ p → q ≠ mprocId →
      t.membership.groupsOfProcess q = s.membership.groupsOfProcess q)
    (hrecords : t.invitations = s.invitations.erase p) (hnext : t.nextOccurrence = s.nextOccurrence)
    (hreserved : t.reserved = s.reserved) (hclaimed : t.claimed = s.claimed ++ [(p, r.occurrence)])
    (hretired : t.retired = s.retired) : Logs t := by
  obtain ⟨-, -, hres, hcl, hret⟩ := h.record p r hr
  refine ⟨fun q r' hr' => ?_, ?_, hreserved ▸ h.increasing, ?_, ?_, ?_, ?_⟩
  · rw [hrecords] at hr'
    by_cases hq : q = p
    · rw [hq, AList.lookup_erase] at hr'
      cases hr'
    · rw [AList.lookup_erase_ne hq] at hr'
      obtain ⟨hown, hnone, hres', hcl', hret'⟩ := h.record q r' hr'
      rw [hgroups q hq hown, hreserved, hclaimed, hretired]
      refine ⟨hown, hnone, hres', fun hmem => ?_, hret'⟩
      obtain hmem | hmem := List.mem_append.1 hmem
      · exact hcl' hmem
      · exact hq (Prod.mk.inj (List.mem_singleton.1 hmem)).1
  · rw [hreserved, hnext]
    exact h.issued
  · rw [hclaimed]
    refine h.claimed_nodup.append (List.nodup_singleton _) ?_
    exact List.disjoint_singleton.2 hcl
  · rw [hclaimed, hreserved]
    intro x hx
    obtain hx | hx := List.mem_append.1 hx
    · exact h.claimed_reserved x hx
    · rwa [List.mem_singleton.1 hx]
  · rw [hretired, hreserved]
    exact h.retired_reserved
  · rw [hretired, hclaimed]
    intro x hx hmem
    obtain hmem | hmem := List.mem_append.1 hmem
    · exact h.retired_claimed x hx hmem
    · exact hret hpending (List.mem_singleton.1 hmem ▸ hx)

theorem Membership.Ok.attach (h : m.Ok drawn) (p : InstanceId) (occurrence : ℕ) :
    { m with books := m.books.attach p occurrence }.Ok drawn := { h with
  attached q hq := by
    by_cases hp : q = p
    · simp [Books.attach, Books.register, hp]
    · simpa [Books.attach, Books.register, hp] using h.attached q (by
        simpa [Books.attach, hp] using hq) }

/-- What a claim has attached is gone when it is withdrawn. -/
theorem withdraw_attach (h : m.Ok drawn) (hunknown : m.books.registry p = none)
    (occurrence : ℕ) : (m.books.attach p occurrence).withdraw p = m.books := by
  have hdetached : m.books.attached p = none := by
    by_contra hne
    have hknown := h.attached p (isSome_iff_ne_none.2 hne)
    rw [hunknown] at hknown
    cases hknown
  have hregistry : update m.books.registry p none = m.books.registry := by
    rw [← hunknown, update_eq_self]
  have hattached : update m.books.attached p none = m.books.attached := by
    rw [← hdetached, update_eq_self]
  simp only [Books.attach, Books.register, Books.withdraw, update_idem, hregistry, hattached]

/-- The books after a withdrawal are those the claim has found. -/
theorem Held.withdraw (h : Held s c) (hphase : c.phase = .refused ∨ c.phase = .failed) :
    ∃ before, c.before = some before ∧ before.Ok s.drawn ∧
      { s.membership with books := s.membership.books.withdraw c.call.process } =
        { before.during c.call c.phase with books := before.books } := by
  obtain ⟨before, hbefore, hok, hat, hunknown⟩ := h.before
  refine ⟨before, hbefore, hok, ?_⟩
  have hattaches : c.phase.attaches = true := by
    obtain hphase | hphase := hphase <;> rw [hphase] <;> rfl
  have hbooks : s.membership.books.withdraw c.call.process = before.books := by
    rw [hat, ← withdraw_attach hok (hunknown hattaches) c.call.occurrence]
    obtain hphase | hphase := hphase <;> rw [hphase] <;> rfl
  rw [hbooks, hat]

theorem lock_ne (hheld : s.lock = some th) (th' : κ) (hth : th' ≠ th) : s.lock ≠ some th' := by
  rw [hheld]
  exact fun heq => hth (some.inj heq).symm

variable (h : Inv s)

include h

/-- A step of the clock, of the launches, of the readers, or of the tasks. -/
theorem Inv.of_same (hst : Same s t) (hclaims : t.claims = s.claims)
    (hreserved : t.reserved = s.reserved) (hclaimed : t.claimed = s.claimed)
    (hretired : t.retired = s.retired)
    (htasks : ∀ task ∈ t.tasks, task.drains = true → t.shutdown = true)
    (hcancelled : t.Cancelled → s.Cancelled) : Inv t where
  membership := by
    rw [hst.membership, hst.drawn]
    exact h.membership
  logs := h.logs.same hst.records (by rw [hst.membership]) hst.next hreserved hclaimed hretired
  claims th c hc := (h.claims th c (hclaims ▸ hc)).of_same hst
  tasks := htasks
  cancelled hcan th c hc := by
    obtain ⟨hphase, hmatches⟩ := h.cancelled (hcancelled hcan) th c (hclaims ▸ hc)
    refine ⟨hphase, ?_⟩
    rwa [Matches, hst.records]

theorem Inv.waiting (hfree : s.lock = none) (th : κ) (c : Claim) (hc : s.claims th = some c) :
    c.phase = .waiting := by
  refine (h.claims th c hc).waiting ?_
  rw [hfree]
  exact nofun

/-- A step that makes no record, while all claims wait. -/
theorem Inv.shrink {extra : List (InstanceId × ℕ)} (hst : Shrinks s t extra)
    (hwait : ∀ th c, s.claims th = some c → c.phase = .waiting) (hclaims : t.claims = s.claims)
    (hbooks : t.membership.books = s.membership.books)
    (hgroups : t.membership.groups = s.membership.groups) (hdrawn : t.drawn = s.drawn)
    (htasks : ∀ task ∈ t.tasks, task.drains = true → t.shutdown = true)
    (hcancelled : t.Cancelled → s.Cancelled ∨ t.invitations = ∅) : Inv t := by
  have hwaiting : ∀ th c, t.claims th = some c → s.claims th = some c ∧ c.phase = .waiting := by
    intro th c hc
    rw [hclaims] at hc
    exact ⟨hc, hwait th c hc⟩
  refine ⟨?_, h.logs.shrink hst, fun th c hc => ?_, htasks, fun hcan th c hc => ?_⟩
  · rw [hdrawn]
    exact h.membership.of_bits hbooks hgroups hst.groups
  all_goals obtain ⟨hc, hphase⟩ := hwaiting th c hc
  · exact (h.claims th c hc).of_waiting hphase hst.next
  · refine ⟨hphase, ?_⟩
    rintro ⟨hcustody, r, hr, hocc⟩
    obtain hcan | hempty := hcancelled hcan
    · obtain ⟨r₀, hr₀, hocc₀, -⟩ := hst.records _ r hr
      exact (h.cancelled hcan th c hc).2 ⟨hcustody, r₀, hr₀, hocc₀.symm.trans hocc⟩
    · rw [hempty, AList.lookup_empty] at hr
      cases hr

/-- A shutdown that has emptied the records has closed the way in. -/
theorem Inv.shutdown_of_cancelled (hcan : s.Cancelled) : s.shutdown = true := by
  obtain ⟨task, hmem, rfl | ⟨processIds, rfl⟩⟩ := hcan
  all_goals exact h.tasks _ hmem rfl

/-! ### Records leave the pending state -/

theorem Inv.reject (hwait : ∀ th c, s.claims th = some c → c.phase = .waiting)
    (hr : s.invitations.lookup p = some r) (expiresAt : ℕ) : Inv (s.reject p r expiresAt) := by
  refine h.shrink ⟨Records.descends_reject hr expiresAt, rfl, fun x hx => ⟨r, ?_⟩,
    fun q r' hr' hpending hmem => ?_, rfl, le_rfl, rfl, rfl⟩ hwait rfl rfl rfl rfl h.tasks .inl
  · obtain rfl := List.mem_singleton.1 hx
    exact ⟨hr, rfl⟩
  · obtain ⟨rfl, -⟩ := Prod.mk.inj (List.mem_singleton.1 hmem)
    change (s.invitations.insert q (r.reject expiresAt)).lookup q = some r' at hr'
    rw [AList.lookup_insert, some.injEq] at hr'
    rw [← hr'] at hpending
    cases hpending

omit h in
/-- A cancellation rejects the record or does nothing, while no claim holds the mutex. -/
theorem cancel_cases {token : List UInt8}
    (hstep : s.cancel p = some t ∨ s.cancelWithToken p token = some t) : s.lock = none ∧
      (t = s ∨ ∃ r expiresAt, s.invitations.lookup p = some r ∧ t = s.reject p r expiresAt) := by
  unfold cancel cancelWithToken at hstep
  rw [ite_none_left_eq_some, ite_none_left_eq_some, ← and_or_left,
    not_isSome_iff_eq_none] at hstep
  obtain ⟨hfree, hstep | hstep⟩ := hstep
  all_goals
    refine ⟨hfree, ?_⟩
    split at hstep
    · exact .inl (some.inj hstep).symm
    · next r hr =>
        split at hstep
        · exact .inl (some.inj hstep).symm
        · exact .inr ⟨r, _, hr, (some.inj hstep).symm⟩

theorem Inv.cancel (token : List UInt8)
    (hstep : s.cancel p = some t ∨ s.cancelWithToken p token = some t) : Inv t := by
  obtain ⟨hfree, rfl | ⟨r, expiresAt, hr, rfl⟩⟩ := cancel_cases hstep
  · exact h
  · exact h.reject (h.waiting hfree) hr expiresAt

theorem Inv.transition (hstep : s.transition = some t) : Inv t := by
  rw [State.transition, Option.ite_none_left_eq_some, Option.some.injEq, not_or,
    not_isSome_iff_eq_none] at hstep
  obtain ⟨⟨hfree, -⟩, rfl⟩ := hstep
  refine h.shrink ⟨Records.descends_transition _ _, rfl, fun x hx => ?_,
    fun p r' hr' hpending hmem => ?_, rfl, le_rfl, rfl, rfl⟩ (h.waiting hfree) rfl rfl rfl rfl h.tasks
    .inl
  · obtain ⟨r, hr, -, hocc⟩ := Records.mem_occurrences.1 hx
    exact ⟨r, hr, hocc⟩
  · obtain ⟨r, hr, hexpired, -⟩ := Records.mem_occurrences.1 hmem
    rw [Records.lookup_map, hr, map_some, some.injEq] at hr'
    simp only [Bool.and_eq_true, decide_eq_true_eq] at hexpired
    rw [← hr', InvitationRecord.transition, if_pos hexpired.1, if_pos hexpired.2] at hpending
    cases hpending

theorem Inv.cleanUp (hstep : s.cleanUp = some t) : Inv t := by
  unfold State.cleanUp at hstep
  split at hstep
  · cases hstep
  · cases hstep
    exact h.of_same {} rfl rfl rfl rfl h.tasks id
  · rw [ite_none_left_eq_some, some.injEq, not_isSome_iff_eq_none] at hstep
    obtain ⟨hfree, rfl⟩ := hstep
    exact h.shrink (.nil (Records.descends_cleanUp _ _) rfl le_rfl rfl rfl rfl) (h.waiting hfree) rfl
      rfl rfl rfl h.tasks .inl

/-! ### Shutdown -/

/-- A task goes over into one that ends like it. -/
theorem Inv.drains {task task' : Task} (hmem : task ∈ s.tasks)
    (hdrains : task'.drains = task.drains) :
    ∀ t' ∈ task' ::ₘ s.tasks.erase task, t'.drains = true → s.shutdown = true := by
  intro t' ht' htrue
  obtain rfl | ht' := Multiset.mem_cons.1 ht'
  · exact h.tasks task hmem (hdrains.symm.trans htrue)
  · exact h.tasks t' (Multiset.mem_of_mem_erase ht') htrue

theorem Inv.resume {task : Task} (hmem : task ∈ s.tasks)
    (hstep : { s with tasks := s.tasks.erase task }.resume task = some t) : Inv t := by
  have herase : ∀ t' ∈ s.tasks.erase task, t'.drains = true → s.shutdown = true :=
    fun t' ht' => h.tasks t' (Multiset.mem_of_mem_erase ht')
  cases task with
  | cancelAll drain =>
    simp only [State.resume, Option.ite_none_left_eq_some, Option.some.injEq,
      not_isSome_iff_eq_none] at hstep
    obtain ⟨hfree, rfl⟩ := hstep
    refine h.shrink ⟨fun p r hr => ?_, rfl, fun x hx => ?_, fun p r hr => ?_, rfl, le_rfl, rfl, rfl⟩
      (h.waiting hfree) rfl rfl rfl rfl (h.drains hmem rfl) fun _ => .inr rfl
    · cases (AList.lookup_empty p).symm.trans hr
    · obtain ⟨r, hr, -, hocc⟩ := Records.mem_occurrences.1 hx
      exact ⟨r, hr, hocc⟩
    · cases (AList.lookup_empty p).symm.trans hr
  | removeReaders processIds drain =>
    cases processIds with
    | cons p processIds =>
      cases hstep
      refine h.of_same {} rfl rfl rfl rfl (h.drains hmem rfl) (cancelled_of_cons hmem ?_)
      rintro (htask | ⟨processIds', htask⟩)
      · cases htask
      · cases htask
        exact .inr ⟨_, rfl⟩
    | nil =>
      cases drain with
      | true =>
        cases hstep
        exact h.of_same {} rfl rfl rfl rfl (h.drains hmem rfl) (cancelled_of_cons hmem fun _ => .inr ⟨_, rfl⟩)
      | false =>
        cases hstep
        refine h.of_same {} rfl rfl rfl rfl herase fun hcan => hcan.of_le fun t' ht' => ?_
        exact .inl (Multiset.mem_of_mem_erase ht')
  | drainAttached =>
    cases hstep
    have hcan : s.Cancelled := ⟨_, hmem, .inl rfl⟩
    exact h.shrink (.nil (.refl _) rfl le_rfl rfl rfl rfl) (fun th c hc => (h.cancelled hcan th c hc).1)
      rfl rfl rfl rfl herase fun _ => .inl hcan

/-! ### Reservation -/

theorem Inv.reserve {token : List UInt8} {expiresAt : ℕ} {prepared : Bool}
    (hstep : s.reserve p token expiresAt prepared = some t) : Inv t := by
  rw [State.reserve, Option.ite_none_left_eq_some, Option.not_isSome_iff_eq_none] at hstep
  obtain ⟨hfree, hstep⟩ := hstep
  split at hstep
  · exact some.inj hstep ▸ h
  · next hadmit =>
      cases prepared with
      | false =>
        cases hstep
        exact h.of_same { next := le_update_succ _ p } rfl rfl rfl rfl h.tasks id
      | true =>
        cases hstep
        simp only [not_or, isKnown, Bool.or_eq_true, decide_eq_true_eq, not_not] at hadmit
        obtain ⟨-, -, -, ⟨⟨⟨⟨⟨⟨⟨-, hown⟩, -⟩, -⟩, -⟩, -⟩, hgroups⟩, -⟩, -⟩ := hadmit
        refine ⟨h.membership, ?_, fun th c hc => ?_, h.tasks, fun hcan th c hc => ?_⟩
        · exact h.logs.reserve hown
            (by simpa using hgroups) rfl rfl rfl rfl rfl rfl rfl
        · exact (h.claims th c hc).of_waiting (h.waiting hfree th c hc) (le_update_succ _ p)
        · obtain ⟨hphase, hmatches⟩ := h.cancelled hcan th c hc
          refine ⟨hphase, ?_⟩
          rintro ⟨hcustody, r, hr, hocc⟩
          change (s.invitations.insert p _).lookup c.call.process = some r at hr
          by_cases hp : c.call.process = p
          · rw [hp, AList.lookup_insert, some.injEq] at hr
            have hissued := (h.claims th c hc).issued hcustody
            rw [← hocc, ← hr, hp] at hissued
            dsimp only at hissued
            omega
          · rw [AList.lookup_insert_ne hp] at hr
            exact hmatches ⟨hcustody, r, hr, hocc⟩

/-! ### Claims go on -/

variable [DecidableEq κ] {th : κ} {c : Claim}

theorem Inv.claim {call : Call} (hstep : s.claim th call = some t) : Inv t := by
  rw [State.claim, Option.ite_none_left_eq_some] at hstep
  obtain ⟨hguard, hstep⟩ := hstep
  split at hstep
  · exact some.inj hstep ▸ h
  · next hchecks =>
      cases hstep
      simp only [not_or, not_and, not_lt, ne_eq, not_not] at hguard hchecks
      obtain ⟨-, -, hshutdown, hsender⟩ := hchecks
      refine ⟨h.membership, h.logs.same rfl rfl le_rfl rfl rfl rfl, ?_, h.tasks, ?_⟩
      · intro th' c' hc'
        obtain ⟨rfl, hnew⟩ | ⟨-, hc'⟩ := Updates.update_cases hc'
        · cases hnew
          exact ⟨hsender, hguard.2, fun _ => rfl, fun hne => absurd rfl hne⟩
        · exact (h.claims th' c' hc').of_same {}
      · intro hcan
        exact absurd (h.shutdown_of_cancelled hcan) hshutdown

section

variable (hlock : ∀ th', th' ≠ th → s.lock ≠ some th') (hok : t.membership.Ok t.drawn)
  (hlogs : Logs t) (hnext : t.nextOccurrence = s.nextOccurrence) (htasks : t.tasks = s.tasks)
  (hshutdown : t.shutdown = s.shutdown)

include hlock hok hlogs hnext htasks hshutdown

/-- A claim returns. -/
theorem Inv.leave (hclaims : t.claims = update s.claims th none)
    (hrecords : s.invitations.Descends t.invitations) : Inv t := by
  have hother : ∀ th' c', t.claims th' = some c' → s.claims th' = some c' ∧ c'.phase = .waiting := by
    intro th' c' hc'
    rw [hclaims] at hc'
    obtain ⟨-, hc'⟩ | ⟨hth, hc'⟩ := Updates.update_cases hc'
    · cases hc'
    · exact ⟨hc', (h.claims th' c' hc').waiting (hlock th' hth)⟩
  refine ⟨hok, hlogs, fun th' c' hc' => ?_, ?_, fun hcan th' c' hc' => ?_⟩
  · obtain ⟨hc', hphase⟩ := hother th' c' hc'
    exact (h.claims th' c' hc').of_waiting hphase hnext.ge
  · rw [htasks, hshutdown]
    exact h.tasks
  · obtain ⟨hc', hphase⟩ := hother th' c' hc'
    refine ⟨hphase, ?_⟩
    rintro ⟨hcustody, r, hr, hocc⟩
    obtain ⟨r₀, hr₀, hocc₀, -⟩ := hrecords _ r hr
    rw [Cancelled, htasks] at hcan
    exact (h.cancelled hcan th' c' hc').2 ⟨hcustody, r₀, hr₀, hocc₀.symm.trans hocc⟩

/-- A claim goes on with the mutex. -/
theorem Inv.hold {c' : Claim} (hc : s.claims th = some c)
    (hclaims : t.claims = update s.claims th (some c')) (hcall : c'.call = c.call)
    (hphase : c'.phase ≠ .waiting) (hlock' : t.lock = some th) (hheld : Held t c')
    (hnot : ¬s.Cancelled) : Inv t := by
  refine ⟨hok, hlogs, fun th' c'' hc'' => ?_, ?_, fun hcan => ?_⟩
  · rw [hclaims] at hc''
    obtain ⟨rfl, hnew⟩ | ⟨hth, hc''⟩ := Updates.update_cases hc''
    · cases hnew
      have hclaim := h.claims th' c hc
      refine ⟨hcall ▸ hclaim.sender, ?_, fun hwaiting => absurd hwaiting hphase,
        fun _ => ⟨hlock', hheld⟩⟩
      rw [hcall, hnext]
      exact hclaim.issued
    · exact (h.claims th' c'' hc'').of_waiting ((h.claims th' c'' hc'').waiting (hlock th' hth))
        hnext.ge
  · rw [htasks, hshutdown]
    exact h.tasks
  · rw [Cancelled, htasks] at hcan
    exact absurd hcan hnot

end

/-- What is left of a claim that returns false without having changed a group. -/
theorem Inv.leave_membership (hheld : s.lock = some th) (m : Membership) (hok : m.Ok s.drawn)
    (hgroups : m.groupsOfProcess = s.membership.groupsOfProcess) :
    Inv ({ s with membership := m }.leave th) :=
  h.leave (lock_ne hheld) hok (h.logs.same rfl hgroups le_rfl rfl rfl rfl) rfl rfl rfl rfl (.refl _)

variable (hc : s.claims th = some c)

include hc

theorem Inv.check (hfree : s.lock = none) : Inv (s.check th c) := by
  have hlock : ∀ th', th' ≠ th → s.lock ≠ some th' := by
    rw [hfree]
    exact fun _ _ => nofun
  have hleave : Inv (s.leave th) :=
    h.leave hlock h.membership (h.logs.same rfl rfl le_rfl rfl rfl rfl) rfl rfl rfl rfl (.refl _)
  unfold State.check
  split
  · exact hleave
  · next r hr =>
      have hreject : ∀ expiresAt, Inv ((s.reject c.call.process r expiresAt).leave th) := by
        intro expiresAt
        have hinv := h.reject (h.waiting hfree) hr expiresAt
        exact hinv.leave hlock hinv.membership (hinv.logs.same rfl rfl le_rfl rfl rfl rfl) rfl rfl rfl rfl
          (.refl _)
      split
      · exact hleave
      · next hstamp =>
          simp only [not_or, ne_eq, not_not] at hstamp
          obtain ⟨hcustody, hocc, hpending⟩ := hstamp
          split
          · exact hreject _
          · next hexpired =>
              split
              · exact hreject _
              · next htoken =>
                  split
                  · exact hleave
                  · next hadmission =>
                      have hmatches : s.Matches c.call := ⟨hcustody, r, hr, hocc.symm⟩
                      have htoken' : r.token = c.call.token :=
                        externalAttachTokensEqual_iff.1 (by simpa using htoken)
                      exact h.hold hlock h.membership (h.logs.same rfl rfl le_rfl rfl rfl rfl) rfl rfl rfl
                        hc rfl rfl nofun rfl ⟨⟨(h.claims th c hc).sender, hcustody,
                        ⟨r, hr, hpending, hocc.symm, htoken', Nat.lt_of_not_le hexpired⟩, Nat.le_refl _,
                        Bool.eq_false_iff.2 hadmission⟩, s.membership, rfl, h.membership, rfl, nofun⟩
                        fun hcan => (h.cancelled hcan th c hc).2 hmatches

/-- A claim goes on to another phase. -/
theorem Inv.setPhase (hphase : c.phase ≠ .waiting)
    (phase : Phase) (hphase' : phase ≠ .waiting) (m : Membership) (drawn : ℕ)
    (hdrawn : s.drawn ≤ drawn) (hok : m.Ok drawn)
    (hgroups : m.groupsOfProcess = s.membership.groupsOfProcess)
    (hduring : ∀ before : Membership, before.Ok s.drawn →
      s.membership = before.during c.call c.phase →
      (c.phase.attaches = true → before.books.registry c.call.process = none) →
      m = before.during c.call phase ∧
        (phase.attaches = true → before.books.registry c.call.process = none)) :
    Inv ({ s with membership := m, drawn := drawn }.setPhase th c phase) := by
  obtain ⟨hheld, hentitled, before, hbefore, hbeforeOk, hat, hunknown⟩ :=
    (h.claims th c hc).held hphase
  refine h.hold (lock_ne hheld) hok (h.logs.same rfl hgroups le_rfl rfl rfl rfl) rfl rfl rfl hc rfl rfl
    hphase' hheld ⟨{ hentitled with }, before, hbefore, hbeforeOk.mono hdrawn,
    hduring before hbeforeOk hat hunknown⟩ fun hcan => ?_
  exact hphase (h.cancelled hcan th c hc).1

theorem Inv.join (hphase : c.phase = .activated) (typeId : ℕ) : Inv (s.join th c typeId) := by
  have hne : c.phase ≠ .waiting := by
    rw [hphase]
    exact nofun
  obtain ⟨hheld, hentitled, -⟩ := (h.claims th c hc).held hne
  obtain ⟨r, hr, hpending, hocc, -⟩ := hentitled.record
  obtain ⟨hfail, hok, hdrawn, hother⟩ := addExternalProcessToStandardGroups_spec h.membership
    (h.logs.record _ r hr).2.1 typeId
  unfold State.join
  dsimp only
  generalize s.membership.addExternalProcessToStandardGroups c.call.process s.drawn typeId = result at *
  obtain ⟨added, m, drawn⟩ := result
  cases added with
  | true =>
    exact h.leave (lock_ne hheld) hok
      (h.logs.claim hr hpending hother rfl rfl rfl (by rw [hocc]; rfl) rfl) rfl rfl rfl rfl
      (Records.descends_erase _ _)
  | false =>
    obtain rfl : m = s.membership := hfail rfl
    refine h.setPhase hc hne .failed nofun s.membership drawn hdrawn hok rfl
      fun before _ hat hunknown => ?_
    rw [hphase] at hat hunknown
    exact ⟨hat, hunknown⟩

theorem Inv.withdraw (hphase : c.phase = .refused ∨ c.phase = .failed) : Inv (s.withdraw th c) := by
  have hne : c.phase ≠ .waiting := by
    obtain hphase | hphase := hphase <;> rw [hphase] <;> exact nofun
  obtain ⟨hheld, hclaim⟩ := (h.claims th c hc).held hne
  obtain ⟨before, -, hok, heq⟩ := hclaim.withdraw hphase
  refine h.leave_membership hheld _ ?_ rfl
  rw [heq]
  refine hok.of_bits rfl ?_ ?_ <;> obtain hphase | hphase := hphase <;> rw [hphase] <;> rfl

theorem Inv.proceed {typeId : ℕ} (hstep : s.proceed th c typeId = some t) : Inv t := by
  have hgo : ∀ phase, c.phase ≠ .waiting → phase ≠ .waiting → (∀ before : Membership,
      before.during c.call c.phase = before.during c.call phase) →
      phase.attaches = c.phase.attaches → Inv (s.setPhase th c phase) := by
    intro phase hne hne' hduring hattaches
    refine h.setPhase hc hne phase hne' s.membership s.drawn le_rfl h.membership rfl
      fun before _ hat hunknown => ⟨hat.trans (hduring before), ?_⟩
    rw [hattaches]
    exact hunknown
  have hleave : c.phase ≠ .waiting → Inv (s.leave th) := fun hne =>
    h.leave_membership ((h.claims th c hc).held hne).1 s.membership h.membership rfl
  obtain ⟨call, phase, checkedAt, found⟩ := c
  cases phase with
  | waiting =>
    simp only [proceed, ite_none_left_eq_some, some.injEq,
      not_isSome_iff_eq_none] at hstep
    obtain ⟨hfree, rfl⟩ := hstep
    exact h.check hc hfree
  | checked =>
    simp only [proceed] at hstep
    split at hstep
    · cases hstep
      exact hgo .bound nofun nofun (fun _ => rfl) rfl
    · cases hstep
      exact hleave nofun
  | bound =>
    cases hstep
    unfold State.attach
    dsimp only
    split
    · exact hleave nofun
    · next hadmit =>
        simp only [not_or, not_isSome_iff_eq_none] at hadmit
        refine h.setPhase hc nofun .attached nofun _ s.drawn le_rfl
          (h.membership.attach call.process call.occurrence) rfl fun before _ hat _ => ?_
        change s.membership = before at hat
        subst hat
        exact ⟨rfl, fun _ => hadmit.1⟩
  | attached =>
    cases hstep
    split
    · exact hgo .refused nofun nofun (fun _ => rfl) rfl
    · exact hgo .admitted nofun nofun (fun _ => rfl) rfl
  | refused =>
    cases hstep
    exact h.withdraw hc (.inl rfl)
  | admitted =>
    cases hstep
    refine h.setPhase hc nofun .activated nofun _ s.drawn le_rfl (h.membership.of_bits rfl rfl rfl) rfl
      fun before _ hat hunknown => ?_
    rw [hat]
    exact ⟨rfl, hunknown⟩
  | activated =>
    cases hstep
    exact h.join hc rfl typeId
  | failed =>
    cases hstep
    exact h.withdraw hc (.inr rfl)

omit hc in
theorem Inv.step {a : Action κ} (hstep : s.step a = some t) : Inv t := by
  cases a with
  | tick n =>
    cases hstep
    exact h.of_same { now := Nat.le_add_right _ _ } rfl rfl rfl rfl h.tasks id
  | launch joining cachedSpawn initializing =>
    cases hstep
    exact h.of_same {} rfl rfl rfl rfl h.tasks id
  | setAdmission closed =>
    rw [State.step, Option.ite_none_left_eq_some, Option.some.injEq,
      not_isSome_iff_eq_none] at hstep
    obtain ⟨hfree, rfl⟩ := hstep
    exact h.shrink (.nil (.refl _) rfl le_rfl rfl rfl rfl) (h.waiting hfree) rfl rfl rfl rfl h.tasks .inl
  | reserve p token expiresAt prepared => exact h.reserve hstep
  | cancel p => exact h.cancel [] (.inl hstep)
  | cancelWithToken p token => exact h.cancel token (.inr hstep)
  | transition => exact h.transition hstep
  | cleanUp => exact h.cleanUp hstep
  | beginShutdown =>
    cases hstep
    refine h.of_same {} rfl rfl rfl rfl
      (fun _ _ _ => rfl) fun hcan => hcan.of_le fun task htask => ?_
    exact (Multiset.mem_cons.1 htask).symm.imp id fun heq => ⟨_, heq⟩
  | cancelAll =>
    cases hstep
    refine h.of_same {} rfl rfl rfl rfl
      (fun task htask hdrains => ?_) fun hcan => hcan.of_le fun task htask => ?_
    · obtain rfl | htask := Multiset.mem_cons.1 htask
      · cases hdrains
      · exact h.tasks task htask hdrains
    · exact (Multiset.mem_cons.1 htask).symm.imp id fun heq => ⟨_, heq⟩
  | task task =>
    rw [State.step, Option.ite_none_right_eq_some] at hstep
    exact h.resume hstep.1 hstep.2
  | claim th call => exact h.claim hstep
  | proceed th typeId =>
    obtain ⟨c, hc, hstep⟩ := bind_eq_some_iff.1 hstep
    exact h.proceed hc hstep

end

variable [DecidableEq κ]

/-- Every step keeps both. -/
theorem reachable_inv {s : State κ} (h : (machine κ).Reachable s) : Inv s := by
  refine h.invariant (fun s h0 => ?_) fun s a t hinv hstep => hinv.step hstep
  refine ⟨h0.membership, ⟨?_, ?_, ?_, ?_, ?_, ?_, ?_⟩, ?_, ?_, ?_⟩
  · rw [h0.invitations]
    exact fun p r hr => by cases (AList.lookup_empty p).symm.trans hr
  · rw [h0.reserved]
    exact nofun
  · rw [h0.reserved]
    exact .nil
  · rw [h0.claimed]
    exact List.nodup_nil
  · rw [h0.claimed]
    exact nofun
  · rw [h0.retired]
    exact nofun
  · rw [h0.retired]
    exact nofun
  · intro th c hc
    rw [h0.claims] at hc
    cases hc
  · rw [h0.tasks]
    exact fun task htask => absurd htask (Multiset.notMem_zero task)
  · intro _ th c hc
    rw [h0.claims] at hc
    cases hc

end Sintra.Process.Invitations
