import Sintra.Process.InvitationsSafety

/-!
# Invitations are claimed once, and only while they stand
-/

namespace Sintra.Process.Invitations

open Function State Option

open Coordinator (Instance managedProcess mprocId)
open Registry (Books makeInstanceId)

variable {κ : Type*}

/-! ### Pending records -/

/-- A pending record stays, or is claimed, or is retired for good. -/
structure Kept (s t : State κ) : Prop where
  pending : ∀ p r, s.invitations.lookup p = some r → r.state = .pending →
    (∃ r', t.invitations.lookup p = some r' ∧ r'.state = .pending ∧ r'.occurrence = r.occurrence) ∨
      (p, r.occurrence) ∈ t.retired ∨ (p, r.occurrence) ∈ t.claimed
  retired : s.retired ⊆ t.retired

section

variable {s t : State κ}

theorem Kept.of_lookup (hretired : t.retired = s.retired)
    (h : ∀ p r, s.invitations.lookup p = some r → r.state = .pending →
      t.invitations.lookup p = some r) : Kept s t where
  pending p r hr hpending := .inl ⟨r, h p r hr hpending, hpending, rfl⟩
  retired := hretired ▸ List.Subset.refl _

theorem Kept.of_same (hretired : t.retired = s.retired) (h : t.invitations = s.invitations) :
    Kept s t :=
  Kept.of_lookup hretired fun _ _ hr _ => h ▸ hr

variable {a : Action κ} {p : InstanceId}

theorem Kept.reject {r : InvitationRecord} (hr : s.invitations.lookup p = some r) {expiresAt : ℕ}
    (hrecords : t.invitations = (s.reject p r expiresAt).invitations)
    (hretired : t.retired = (s.reject p r expiresAt).retired) : Kept s t := by
  refine ⟨fun q r' hr' hpending => ?_, hretired ▸ List.subset_append_left _ _⟩
  obtain rfl | hq := eq_or_ne q p
  · obtain rfl := mem_unique hr hr'
    rw [hretired]
    exact .inr (.inl (List.mem_append_right _ (List.mem_singleton_self _)))
  · refine .inl ⟨r', ?_, hpending, rfl⟩
    rw [hrecords]
    exact (AList.lookup_insert_ne hq).trans hr'

/-- A step of the operations other than claims. -/
structure Aside (s t : State κ) : Prop where
  claims : t.claims = s.claims
  claimed : t.claimed = s.claimed
  kept : Kept s t

theorem Aside.of_same (hclaims : t.claims = s.claims) (hclaimed : t.claimed = s.claimed)
    (hretired : t.retired = s.retired) (h : t.invitations = s.invitations) : Aside s t :=
  ⟨hclaims, hclaimed, .of_same hretired h⟩

theorem Aside.transition (h : s.transition = some t) : Aside s t := by
  rw [State.transition, Option.ite_none_left_eq_some, Option.some.injEq] at h
  obtain ⟨-, rfl⟩ := h
  refine ⟨rfl, rfl, fun p r hr hpending => ?_, List.subset_append_left _ _⟩
  by_cases hexpired : r.expiresAt ≤ s.now
  · refine .inr (.inl (List.mem_append_right _ (Records.mem_occurrences.2 ⟨r, hr, ?_, rfl⟩)))
    rw [Bool.and_eq_true, decide_eq_true_iff, decide_eq_true_iff]
    exact ⟨hexpired, hpending⟩
  · refine .inl ⟨r, ?_, hpending, rfl⟩
    rw [Records.lookup_map, hr, map_some, InvitationRecord.transition, if_neg hexpired]

theorem Records.lookup_cleanUp {r : InvitationRecord} (hpending : r.state = .pending)
    (processIds : List InstanceId) {l : Records} (hr : l.lookup p = some r) :
    (processIds.foldl (fun l p =>
      if (l.lookup p).any (·.state = .removing) then l.erase p else l) l).lookup p = some r := by
  induction processIds generalizing l with
  | nil => exact hr
  | cons q processIds ih =>
    rw [List.foldl_cons]
    apply ih
    split
    · next hremoving =>
        have hne : p ≠ q := by
          rintro rfl
          rw [hr, any_some, hpending] at hremoving
          cases hremoving
        rw [AList.lookup_erase_ne hne, hr]
    · exact hr

theorem Aside.cleanUp (h : s.cleanUp = some t) : Aside s t := by
  unfold State.cleanUp at h
  split at h
  · cases h
  · cases h
    exact .of_same rfl rfl rfl rfl
  · rw [ite_none_left_eq_some, some.injEq] at h
    obtain ⟨-, rfl⟩ := h
    refine ⟨rfl, rfl, ?_⟩
    exact .of_lookup rfl fun p r hr hpending => Records.lookup_cleanUp hpending _ hr

theorem Aside.reserve {token : List UInt8} {expiresAt : ℕ} {prepared : Bool}
    (h : s.reserve p token expiresAt prepared = some t) : Aside s t := by
  rw [State.reserve, Option.ite_none_left_eq_some] at h
  obtain ⟨-, h⟩ := h
  split at h
  · cases h
    exact .of_same rfl rfl rfl rfl
  · next hknown =>
      simp only [not_or, not_isSome_iff_eq_none] at hknown
      split at h
      · cases h
        exact .of_same rfl rfl rfl rfl
      · cases h
        refine ⟨rfl, rfl, .of_lookup rfl fun q r hr _ => (AList.lookup_insert_ne ?_).trans hr⟩
        rintro rfl
        cases hknown.2.2.1.symm.trans hr

theorem Aside.cancel (token : List UInt8)
    (h : s.cancel p = some t ∨ s.cancelWithToken p token = some t) : Aside s t := by
  obtain ⟨-, rfl | ⟨r, expiresAt, hr, rfl⟩⟩ := cancel_cases h
  · exact .of_same rfl rfl rfl rfl
  · exact ⟨rfl, rfl, .reject hr rfl rfl⟩

theorem Aside.resume {task : Task} (h : s.resume task = some t) : Aside s t := by
  cases task with
  | cancelAll drain =>
    rw [State.resume, Option.ite_none_left_eq_some, Option.some.injEq] at h
    obtain ⟨-, rfl⟩ := h
    refine ⟨rfl, rfl, fun p r hr _ => .inr (.inl (List.mem_append_right _ ?_)),
      List.subset_append_left _ _⟩
    exact Records.mem_occurrences.2 ⟨r, hr, rfl, rfl⟩
  | removeReaders processIds drain =>
    cases processIds with
    | nil =>
      cases h
      split <;> exact .of_same rfl rfl rfl rfl
    | cons p processIds =>
      cases h
      exact .of_same rfl rfl rfl rfl
  | drainAttached =>
    cases h
    exact .of_same rfl rfl rfl rfl

/-! ### Steps -/

variable [DecidableEq κ] {th : κ} {c : Claim}

/-- Only a claim that goes on may end or claim a record. -/
theorem step_cases (h : s.step a = some t) :
    Aside s t ∨ (∃ th call, s.claim th call = some t) ∨
      ∃ th c typeId, s.claims th = some c ∧ s.proceed th c typeId = some t := by
  cases a with
  | tick | launch | beginShutdown | cancelAll =>
    cases h
    exact .inl (.of_same rfl rfl rfl rfl)
  | setAdmission closed =>
    rw [step, ite_none_left_eq_some, some.injEq] at h
    obtain ⟨-, rfl⟩ := h
    exact .inl (.of_same rfl rfl rfl rfl)
  | reserve p token expiresAt prepared => exact .inl (.reserve h)
  | cancel p => exact .inl (.cancel [] (.inl h))
  | cancelWithToken p token => exact .inl (.cancel token (.inr h))
  | transition => exact .inl (.transition h)
  | cleanUp => exact .inl (.cleanUp h)
  | task task =>
    rw [step, ite_none_right_eq_some] at h
    have haside := Aside.resume h.2
    exact .inl ⟨haside.claims, haside.claimed, haside.kept.pending, haside.kept.retired⟩
  | claim th call => exact .inr (.inl ⟨th, call, h⟩)
  | proceed th typeId =>
    obtain ⟨c, hc, h⟩ := bind_eq_some_iff.1 h
    exact .inr (.inr ⟨th, c, typeId, hc, h⟩)

/-- What a claim does in one step. -/
inductive Turn (s : State κ) (th : κ) (c : Claim) : State κ → Prop
  /-- It goes on. -/
  | goes {t : State κ} {c' : Claim} (hclaims : t.claims = update s.claims th (some c'))
      (hclaimed : t.claimed = s.claimed) (hkept : Kept s t) : Turn s th c t
  /-- It returns true. -/
  | joins {t : State κ} (hphase : c.phase = .activated)
      (hclaims : t.claims = update s.claims th none)
      (hclaimed : t.claimed = s.claimed ++ [(c.call.process, c.call.occurrence)])
      (hrecords : t.invitations = s.invitations.erase c.call.process)
      (hretired : t.retired = s.retired) : Turn s th c t
  /-- It returns false before it has attached its process. -/
  | leaves {t : State κ} (hphase : c.phase = .waiting ∨ c.phase = .checked ∨ c.phase = .bound)
      (hclaims : t.claims = update s.claims th none) (hclaimed : t.claimed = s.claimed)
      (hmembership : t.membership = s.membership) (hkept : Kept s t) : Turn s th c t
  /-- It returns false and withdraws its process. -/
  | withdraws (hphase : c.phase = .refused ∨ c.phase = .failed) : Turn s th c (s.withdraw th c)

theorem check_turn (hphase : c.phase = .waiting) : Turn s th c (s.check th c) := by
  have hleaves : Turn s th c (s.leave th) := .leaves (.inl hphase) rfl rfl rfl (.of_same rfl rfl)
  unfold check
  split
  · exact hleaves
  · next r hr =>
      by_cases hstamp : c.call.custodyIdentity ≠ 0 ∨ c.call.occurrence ≠ r.occurrence ∨
          r.state ≠ .pending
      · rw [if_pos hstamp]
        exact hleaves
      rw [if_neg hstamp]
      by_cases hexpired : r.expiresAt ≤ s.now
      · rw [if_pos hexpired]
        exact .leaves (.inl hphase) rfl rfl rfl (.reject hr rfl rfl)
      rw [if_neg hexpired]
      by_cases htoken : (!externalAttachTokensEqual r.token c.call.token) = true
      · rw [if_pos htoken]
        exact .leaves (.inl hphase) rfl rfl rfl (.reject hr rfl rfl)
      rw [if_neg htoken]
      split
      · exact hleaves
      · exact .goes rfl rfl (.of_same rfl rfl)

theorem proceed_turn {typeId : ℕ} (h : s.proceed th c typeId = some t) : Turn s th c t := by
  obtain ⟨call, phase, checkedAt, found⟩ := c
  cases phase with
  | waiting =>
    simp only [proceed, ite_none_left_eq_some, some.injEq] at h
    obtain ⟨-, rfl⟩ := h
    exact check_turn rfl
  | checked =>
    simp only [proceed] at h
    split at h <;> cases h
    · exact .goes rfl rfl (.of_same rfl rfl)
    · exact .leaves (.inr (.inl rfl)) rfl rfl rfl (.of_same rfl rfl)
  | bound =>
    cases h
    unfold State.attach
    dsimp only
    split
    · exact .leaves (.inr (.inr rfl)) rfl rfl rfl (.of_same rfl rfl)
    · exact .goes rfl rfl (.of_same rfl rfl)
  | attached | admitted =>
    cases h
    exact .goes rfl rfl (.of_same rfl rfl)
  | activated =>
    cases h
    unfold State.join
    dsimp only
    split
    · exact .joins rfl rfl rfl rfl rfl
    · exact .goes rfl rfl (.of_same rfl rfl)
  | refused =>
    cases h
    exact .withdraws (.inl rfl)
  | failed =>
    cases h
    exact .withdraws (.inr rfl)

theorem Turn.kept (h : Turn s th c t) (hinv : Inv s) (hc : s.claims th = some c) : Kept s t := by
  cases h with
  | goes _ _ hkept | leaves _ _ _ _ hkept => exact hkept
  | withdraws => exact .of_same rfl rfl
  | joins hphase _ hclaimed hrecords hretired =>
    have hne : c.phase ≠ .waiting := by
      rw [hphase]
      exact nofun
    obtain ⟨r, hr, -, hocc, -⟩ := ((hinv.claims th c hc).held hne).2.entitled.record
    refine ⟨fun p r' hr' hpending => ?_, hretired ▸ List.Subset.refl _⟩
    obtain rfl | hp := eq_or_ne p c.call.process
    · obtain rfl := mem_unique hr hr'
      rw [hclaimed, hocc]
      exact .inr (.inr (List.mem_append_right _ (List.mem_singleton_self _)))
    · refine .inl ⟨r', ?_, hpending, rfl⟩
      rw [hrecords, AList.lookup_erase_ne hp, hr']

theorem Turn.claims_of_ne (h : Turn s th c t) {th' : κ} (hne : th' ≠ th) :
    t.claims th' = s.claims th' := by
  cases h with
  | goes hclaims | joins _ hclaims | leaves _ hclaims =>
    rw [hclaims, update_of_ne hne]
  | withdraws => exact update_of_ne hne _ _

/-- A step in which a claim returns is its own. -/
theorem turn_of_returns (h : s.step a = some t) (hc : s.claims th = some c)
    (hgone : t.claims th = none) : Turn s th c t := by
  obtain haside | ⟨th', call, hclaim⟩ | ⟨th', c', typeId, hc', hproceed⟩ := step_cases h
  · rw [haside.claims, hc] at hgone
    cases hgone
  · rw [claim, ite_none_left_eq_some] at hclaim
    obtain ⟨hnone, hclaim⟩ := hclaim
    simp only [not_or, not_isSome_iff_eq_none] at hnone
    have hne : th ≠ th' := by
      rintro rfl
      cases hnone.1.symm.trans hc
    split at hclaim
    · rw [← some.inj hclaim, hc] at hgone
      cases hgone
    · rw [← some.inj hclaim] at hgone
      cases hc.symm.trans ((update_of_ne hne _ _).symm.trans hgone)
  · have hturn := proceed_turn hproceed
    obtain rfl | hne := eq_or_ne th th'
    · obtain rfl := mem_unique hc hc'
      exact hturn
    · rw [hturn.claims_of_ne hne, hc] at hgone
      cases hgone

theorem kept_of_step (hinv : Inv s) (h : s.step a = some t) : Kept s t := by
  obtain haside | ⟨th, call, hclaim⟩ | ⟨th, c, typeId, hc, hproceed⟩ := step_cases h
  · exact haside.kept
  · rw [claim, ite_none_left_eq_some] at hclaim
    obtain ⟨-, hclaim⟩ := hclaim
    split at hclaim <;> (rw [← some.inj hclaim]; exact .of_same rfl rfl)
  · exact (proceed_turn hproceed).kept hinv hc

/-- A record is claimed by the claim that returns, which was entitled to it. -/
theorem claimed_of_step (hinv : Inv s) (h : s.step a = some t) :
    t.claimed = s.claimed ∨ ∃ th c, s.claims th = some c ∧ t.claims th = none ∧ Entitled s c ∧
      t.claimed = s.claimed ++ [(c.call.process, c.call.occurrence)] := by
  obtain haside | ⟨th, call, hclaim⟩ | ⟨th, c, typeId, hc, hproceed⟩ := step_cases h
  · exact .inl haside.claimed
  · rw [claim, ite_none_left_eq_some] at hclaim
    obtain ⟨-, hclaim⟩ := hclaim
    split at hclaim <;> (rw [← some.inj hclaim]; exact .inl rfl)
  · cases proceed_turn hproceed with
    | goes _ hclaimed | leaves _ _ hclaimed => exact .inl hclaimed
    | withdraws => exact .inl rfl
    | joins hphase hclaims hclaimed =>
      have hne : c.phase ≠ .waiting := by
        rw [hphase]
        rintro ⟨⟩
      refine .inr ⟨th, c, hc, ?_, ((hinv.claims th c hc).held hne).2.entitled, hclaimed⟩
      rw [hclaims, update_self]

/-- What a claim that returns false leaves behind. -/
theorem membership_of_returns (hinv : Inv s) (hc : s.claims th = some c) (h : Turn s th c t)
    (hgone : t.claims th = none) (hclaimed : t.claimed = s.claimed)
    (hclear : c.phase = .failed → ∀ before, c.before = some before →
      before.draining c.call.process = false ∧
        before.inCollectiveShutdown c.call.process = false) :
    t.membership = c.before.getD s.membership := by
  cases h with
  | goes hclaims =>
    rw [hclaims, update_self] at hgone
    cases hgone
  | joins _ _ hjoined =>
    have hlen := congrArg List.length (hclaimed.symm.trans hjoined)
    simp at hlen
  | leaves hphase _ _ hmembership =>
    rw [hmembership]
    by_cases hwaiting : c.phase = .waiting
    · rw [(hinv.claims th c hc).unheld hwaiting]
      rfl
    · obtain ⟨before, hbefore, -, hat, -⟩ := ((hinv.claims th c hc).held hwaiting).2.before
      rw [hbefore, hat]
      obtain hphase | hphase | hphase := hphase
      · exact absurd hphase hwaiting
      all_goals rw [hphase]; rfl
  | withdraws hphase =>
    have hne : c.phase ≠ .waiting := by
      obtain hphase | hphase := hphase <;> rw [hphase] <;> exact nofun
    obtain ⟨before, hbefore, -, heq⟩ := ((hinv.claims th c hc).held hne).2.withdraw hphase
    rw [hbefore]
    refine Eq.trans heq ?_
    obtain hphase | hphase := hphase
    · rw [hphase]
      rfl
    · obtain ⟨hdraining, hcollective⟩ := hclear hphase before hbefore
      rw [hphase]
      unfold Membership.during
      dsimp only [getD_some]
      rw [update_eq_self_iff.2 hdraining.symm, update_eq_self_iff.2 hcollective.symm]

end

variable [DecidableEq κ]

/-- **Invitations are claimed once, and only while they stand.** In every run: the occurrences of a
process increase; a reserved occurrence is claimed at most once, and never after its record was
cancelled, has expired or was presented with a wrong token; it is claimed by a claim that was entitled
to it when it took the mutex and still is when it returns; and a claim that returns false leaves the
books, the groups and the states of the processes as it has found them, unless the process was draining
or in a collective shutdown and could not be added to the groups. -/
theorem invitations_sound {s t : State κ} {a : Action κ} (h : (machine κ).Reachable s)
    (hstep : (machine κ).step s a = some t) :
    (s.reserved.Pairwise fun x y => x.1 = y.1 → x.2 < y.2) ∧ s.claimed.Nodup ∧
    (∀ x ∈ s.claimed, x ∈ s.reserved ∧ x ∉ s.retired) ∧ Kept s t ∧
    (t.claimed = s.claimed ∨ ∃ th c, s.claims th = some c ∧ t.claims th = none ∧ Entitled s c ∧
      t.claimed = s.claimed ++ [(c.call.process, c.call.occurrence)]) ∧
    ∀ th c, s.claims th = some c → t.claims th = none → t.claimed = s.claimed →
      (c.phase = .failed → ∀ before, c.before = some before →
        before.draining c.call.process = false ∧
          before.inCollectiveShutdown c.call.process = false) →
      t.membership = c.before.getD s.membership := by
  have hinv := reachable_inv h
  refine ⟨hinv.logs.increasing, hinv.logs.claimed_nodup,
    fun x hx => ⟨hinv.logs.claimed_reserved x hx, fun hmem => hinv.logs.retired_claimed x hmem hx⟩,
    kept_of_step hinv hstep, claimed_of_step hinv hstep, fun th c hc hgone hclaimed hclear => ?_⟩
  exact membership_of_returns hinv hc (turn_of_returns hstep hc hgone) hgone hclaimed hclear

/-! ### Two runs -/

/-- No invitation was made out yet. -/
def State.start (membership : Membership) (drawn : ℕ) : State Unit where
  now := 0
  membership := membership
  drawn := drawn
  invitations := ∅
  nextOccurrence := fun _ => 0
  readers := fun _ => none
  joining := fun _ => false
  cachedSpawn := fun _ => false
  initializing := fun _ => false
  shutdown := false
  teardownAdmissionClosed := false
  lock := none
  claims := fun _ => none
  cleanup := none
  tasks := 0
  reserved := []
  claimed := []
  retired := []

theorem initial_start {membership : Membership} {drawn : ℕ} (h : membership.Ok drawn) :
    (start membership drawn).Initial :=
  ⟨h, rfl, fun _ => rfl, rfl, rfl, fun _ => rfl, rfl, rfl, rfl, rfl, rfl⟩

/-- There is no group yet. -/
def noGroups : Membership where
  books := .initial
  groups := fun _ => none
  groupsOfProcess := fun _ => ∅
  draining := fun _ => false
  inCollectiveShutdown := fun _ => false

theorem noGroups_tables : noGroups.tables = ⟨fun _ => none, fun _ => none⟩ := by
  simp [Membership.tables, noGroups]

theorem noGroups_ok : noGroups.Ok 0 where
  attached p h := by cases h
  tables := noGroups_tables ▸ Tables.ok_empty

/-- The name of the group of the external processes is that of another object. -/
def nameTaken : Membership where
  books := ((Books.initial.publishTransceiver (makeInstanceId 0)
      ⟨7, Coordinator.allProcesses, .unbound⟩).bind
    (·.publishTransceiver ⟨mprocId, 9⟩ ⟨8, Coordinator.externalProcesses, .unbound⟩)).getD .initial
  groups := update (fun _ => none) Coordinator.allProcesses
    (some ⟨makeInstanceId 0, true, {mprocId}⟩)
  groupsOfProcess := update (fun _ => ∅) mprocId {makeInstanceId 0}
  draining := fun _ => false
  inCollectiveShutdown := fun _ => false

theorem nameTaken_ok : nameTaken.Ok 1 where
  attached _ h := by cases h
  tables := by
    have hrecords : nameTaken.groupsOfProcess =
        (noGroups.recordMembers {mprocId} (makeInstanceId 0)).groupsOfProcess := by
      funext p
      by_cases hp : p = mprocId <;> simp [nameTaken, noGroups, Membership.recordMembers, hp]
    have htables : nameTaken.tables = ((noGroups.recordMembers {mprocId} (makeInstanceId 0)).setGroup
        Coordinator.allProcesses (some ⟨makeInstanceId 0, true, {mprocId}⟩)).tables := by
      rw [Membership.tables, hrecords]
      rfl
    rw [htables, Membership.tables_setGroup, Membership.tables_recordMembers]
    exact noGroups_ok.tables.create rfl {mprocId}

/-- The invitation of process 5 expires and is cleaned up; another is reserved, and claimed up to the
point where the process cannot be added to the groups. -/
def reinvited : List (Action Unit) :=
  [.reserve 5 [1] 10 true, .tick 10, .transition, .tick externalProcessInvitationRejectionGrace,
    .transition, .cleanUp, .cleanUp, .reserve 5 [1] 3000000000 true, .claim () ⟨5, [1], 5, 0, 2⟩,
    .proceed () 7, .proceed () 7, .proceed () 7, .proceed () 7, .proceed () 7, .proceed () 7]

/-- A claim returns false and has cleared the draining state it has found set. -/
theorem claim_clears_draining : ∃ s t : State Unit, (machine Unit).Reachable s ∧
    (machine Unit).step s (.proceed () 7) = some t ∧ t.claimed = s.claimed ∧
    ∃ c, s.claims () = some c ∧ t.claims () = none ∧ ∃ before, c.before = some before ∧
      before.draining c.call.process = true ∧ t.membership.draining c.call.process = false := by
  obtain ⟨s, hreach, hs⟩ : ∃ s : State Unit, (machine Unit).Reachable s ∧
      (((s.step (.proceed () 7)).any fun t => decide (t.claimed = s.claimed) && (t.claims ()).isNone &&
        (s.claims ()).any fun c => (c.before.any fun before => before.draining c.call.process) &&
          !t.membership.draining c.call.process) = true) :=
    Machine.exists_reachable_of_exec reinvited
      (initial_start nameTaken_ok) (by decide +kernel)
  obtain ⟨t, ht, hs⟩ := (any_eq_true _ _).1 hs
  simp only [Bool.and_eq_true, decide_eq_true_iff, isNone_iff_eq_none, any_eq_true,
    Bool.not_eq_true'] at hs
  obtain ⟨⟨hclaimed, hgone⟩, c, hc, ⟨before, hbefore, hdraining⟩, hcleared⟩ := hs
  exact ⟨s, t, hreach, ht, hclaimed, c, hc, hgone, before, hbefore, hdraining, hcleared⟩

/-- A process is invited and attaches. -/
def attaches : List (Action Unit) :=
  [.reserve 5 [1] 10 true, .claim () ⟨5, [1], 5, 0, 1⟩, .proceed () 7, .proceed () 7, .proceed () 7,
    .proceed () 7, .proceed () 7]

theorem invitations_sound_attaches : ∃ s t : State Unit, (machine Unit).Reachable s ∧
    (machine Unit).step s (.proceed () 7) = some t ∧ t.claimed = [(5, 1)] ∧
    ∃ th c, s.claims th = some c ∧ t.claims th = none ∧ Entitled s c := by
  obtain ⟨s, hreach, hs⟩ : ∃ s : State Unit, (machine Unit).Reachable s ∧
      (((s.step (.proceed () 7)).any fun t => decide (s.claimed = []) &&
        decide (t.claimed = [(5, 1)])) = true) :=
    Machine.exists_reachable_of_exec attaches
      (initial_start noGroups_ok) (by decide +kernel)
  obtain ⟨t, ht, hs⟩ := (any_eq_true _ _).1 hs
  simp only [Bool.and_eq_true, decide_eq_true_iff] at hs
  obtain ⟨-, -, -, -, hclaimed, -⟩ := invitations_sound (a := .proceed () 7) hreach ht
  refine ⟨s, t, hreach, ht, hs.2, ?_⟩
  obtain hsame | ⟨th, c, hc, hgone, hentitled, -⟩ := hclaimed
  · rw [hs.1, hs.2] at hsame
    cases hsame
  · exact ⟨th, c, hc, hgone, hentitled⟩

end Sintra.Process.Invitations
