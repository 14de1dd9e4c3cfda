import Sintra.Custody.Releases

/-!
# A release is sound and final

`Turn` says what an action does to the custody and to its launches, `Entries` what it does to the entries
of the registries.
-/

namespace Sintra.Custody

open Function Machine Option

open Process (InstanceId)

/-! ### Occurrences -/

theorem Occurrence.not_terminal_of_pending {o : Occurrence} (h : o.setup = .pending) :
    o.terminal = false := by
  simp [terminal, h]

theorem Occurrence.terminal_transport {o : Occurrence} {t : Transport}
    (h : o.transport.fullyRetired = true → t.fullyRetired = true) (ho : o.terminal = true) :
    ({ o with transport := t } : Occurrence).terminal = true := by
  simp only [terminal, Bool.and_eq_true, Bool.or_eq_true] at ho ⊢
  exact ⟨ho.1, ho.2.imp_right fun ⟨⟨hready, hretired⟩, hexited⟩ => ⟨⟨hready, h hretired⟩, hexited⟩⟩

/-- No section takes a retirement back. -/
theorem Transport.fullyRetired_mono {t t' : Transport} {r : Option Reader}
    (h : t.captureAuthority r = some t' ∨ t.completeRetirement r = some t' ∨
      t.beginRetirement = some t' ∨ t.resetRetirement = some t')
    (ht : t.fullyRetired = true) : t'.fullyRetired = true := by
  obtain ⟨-, hphase⟩ : t.publicationRetired = true ∧ t.phase = .retired := by
    simpa [fullyRetired] using ht
  rcases h with h | h | h | h
  · rw [captureAuthority, if_pos hphase] at h
    obtain ⟨-, rfl⟩ := of_guard h
    exact ht
  · rw [completeRetirement, if_pos hphase] at h
    obtain ⟨-, rfl⟩ := of_guard h
    exact ht
  · simp [beginRetirement, hphase] at h
  · simp [resetRetirement, hphase] at h

theorem ReleaseState.request_eq_released_iff {r : ReleaseState} {mode : ReleaseMode} :
    (r.request mode).2 = .released ↔ r = .released := by
  cases r with
  | opened | released => simp [request]
  | releasing r =>
    rw [request]
    split_ifs <;> simp

namespace Releases

variable {τ : Type*} {a : Action τ} {s t : State τ} {c : CustodyRecord} {k : OccurrenceKey}
  {o : Occurrence} {launches : OccurrenceKey → Option Launch}

/-! ### What a step does -/

/-- What an action does to an occurrence and to its launch. -/
inductive Turn.At (a : Action τ) (s : State τ) (c : CustodyRecord)
    (launches : OccurrenceKey → Option Launch) (k : OccurrenceKey) : Prop
  | kept (h : c.find k = s.custody.find k) (hl : launches k ≠ none → s.launches k ≠ none)
  | admitted (hopen : s.custody.releaseState = .opened) (hk : s.custody.find k = none)
      (h : c.find k = some .fresh)
  | withdrawn (ha : a = .mapFails k) (o : Occurrence) (hk : s.custody.find k = some o) (hpending : o.setup = .pending)
      (habsent : o.native.created = false) (h : c.find k = none) (hl : launches k = none)
  | changed (o o' : Occurrence) (hk : s.custody.find k = some o) (h : c.find k = some o')
      (hterminal : o.terminal = true → o'.terminal = true)
      (hl : launches k ≠ none → s.launches k ≠ none ∧ o'.setup = o.setup)

/-- What an action does to the custody and to its launches. -/
structure Turn (a : Action τ) (s : State τ) (c : CustodyRecord)
    (launches : OccurrenceKey → Option Launch) : Prop where
  released : s.custody.releaseState = .released → c.releaseState = .released
  sound : c.releaseState = .released → s.custody.releaseState = .released ∨ c.allTerminal = true
  decided : s.custody.readiness ≠ .pending → c.readiness ≠ .pending
  find : ∀ k, Turn.At a s c launches k

/-- The custody is released and its readiness is decided. -/
def Done (s : State τ) : Prop :=
  s.custody.releaseState = .released ∧ s.custody.readiness ≠ .pending

/-- What an action does to the entries of the custody in the registries: they stay, or another custody
puts its own in their place, or the custody is done. -/
structure Entries (a : Action τ) (s t : State τ) : Prop where
  registered : s.registered = true → t.registered = true ∨ Done s
  cachedSpawns : ∀ p, s.cachedSpawns p = some s.custody.identity →
    t.cachedSpawns p = some s.custody.identity ∨
      (∃ other, a = .otherCaches p other ∧ t.cachedSpawns p = some other) ∨ Done s
  custodyByProcess : ∀ p occurrence, s.custodyByProcess p = some (s.custody.identity, occurrence) →
    (∃ occurrence', t.custodyByProcess p = some (s.custody.identity, occurrence')) ∨
      (∃ other occurrence', a = .otherAdmits p other occurrence' ∧
        t.custodyByProcess p = some (other, occurrence')) ∨ Done s
  retirers : 0 < t.retirers → 0 < s.retirers ∨ Done s

/-- A step that leaves the registries alone. -/
theorem Entries.same (h : (t.registered, t.cachedSpawns, t.custodyByProcess, t.retirers) =
    (s.registered, s.cachedSpawns, s.custodyByProcess, s.retirers) := by rfl) : Entries a s t := by
  simp only [Prod.mk.injEq] at h
  obtain ⟨hregistered, hcached, hmapped, hretirers⟩ := h
  refine ⟨fun h => .inl (hregistered.trans h), fun p h => .inl ((congrFun hcached p).trans h),
    fun p occurrence h => .inl ⟨occurrence, (congrFun hmapped p).trans h⟩, fun h => .inl (hretirers ▸ h)⟩

structure Inv (s : State τ) : Prop where
  launching : ∀ k, s.launches k ≠ none → ∃ o, s.custody.find k = some o ∧ o.setup = .pending
  released : s.custody.releaseState = .released → ∀ k o, s.custody.find k = some o → o.terminal = true
  retirers : 0 < s.retirers → Done s

/-! ### What a turn keeps -/

theorem Inv.of_turn (hs : Inv s) (h : Turn a s t.custody t.launches) (hentries : Entries a s t) :
    Inv t where
  launching k hl := by
    cases h.find k with
    | kept h hl' => exact h ▸ hs.launching k (hl' hl)
    | admitted _ _ h => exact ⟨_, h, rfl⟩
    | withdrawn _ _ _ _ _ _ hnone => exact absurd hnone hl
    | changed o o' hk h _ hl' =>
      obtain ⟨o₁, ho₁, hpending⟩ := hs.launching k (hl' hl).1
      cases hk.symm.trans ho₁
      exact ⟨o', h, (hl' hl).2.trans hpending⟩
  released hreleased k o hk := by
    obtain hbefore | hall := h.sound hreleased
    · cases h.find k with
      | kept h => exact hs.released hbefore k o (h.symm.trans hk)
      | admitted hopen => cases hopen.symm.trans hbefore
      | withdrawn _ _ _ _ _ h => cases h.symm.trans hk
      | changed o₁ o' hk' h hterminal =>
        cases h.symm.trans hk
        exact hterminal (hs.released hbefore k o₁ hk')
    · exact CustodyRecord.allTerminal_iff.1 hall k o hk
  retirers hpos := by
    obtain ⟨hreleased, hdecided⟩ := (hentries.retirers hpos).elim hs.retirers id
    exact ⟨h.released hreleased, h.decided hdecided⟩

theorem Turn.not_admitted (h : Turn a s c launches) (hs : s.custody.releaseState = .released)
    (hk : s.custody.find k = none) : c.find k = none := by
  cases h.find k with
  | kept h => exact h.trans hk
  | admitted hopen => cases hopen.symm.trans hs
  | withdrawn _ _ _ _ _ h => exact h
  | changed o _ hk' => cases hk'.symm.trans hk

/-- An occurrence goes only when its mapping has failed, before a process was created for it. -/
theorem Turn.withdrawn (h : Turn a s c launches) (hk : s.custody.find k = some o)
    (hnone : c.find k = none) :
    a = .mapFails k ∧ o.setup = .pending ∧ o.native.created = false := by
  cases h.find k with
  | kept h => cases hk.symm.trans (h.symm.trans hnone)
  | admitted _ _ h | changed _ _ _ h => cases h.symm.trans hnone
  | withdrawn ha o' hk' hpending habsent =>
    cases hk.symm.trans hk'
    exact ⟨ha, hpending, habsent⟩

/-! ### Turns of the sections -/

/-- The occurrences stay as they are. -/
theorem Turn.kept (release : ReleaseState)
    (hfinal : s.custody.releaseState = .released → release = .released)
    (hsound : release = .released → s.custody.releaseState = .released ∨ s.custody.allTerminal = true)
    (hl : ∀ k, launches k ≠ none → s.launches k ≠ none) :
    Turn a s (s.custody.setRelease release) launches :=
  ⟨hfinal, hsound, id, fun k => .kept rfl (hl k)⟩

theorem Turn.same : Turn a s s.custody s.launches :=
  .kept s.custody.releaseState id .inl fun _ => id

/-- The release goes on, and is not over before or after. -/
theorem Turn.releasing {release : ReleaseState} (hs : s.custody.releaseState ≠ .released)
    (h : release ≠ .released) : Turn a s (s.custody.setRelease release) s.launches :=
  .kept release (absurd · hs) (absurd · h) fun _ => id

theorem Turn.request (mode : ReleaseMode) : Turn a s (s.custody.request mode).2 s.launches :=
  .kept _ ReleaseState.request_eq_released_iff.2
    (fun h => .inl (ReleaseState.request_eq_released_iff.1 h)) fun _ => id

theorem Turn.retry {g : UInt64} {release : ReleaseState}
    (h : s.custody.releaseState.markRetryable g = some release) :
    Turn a s (s.custody.setRelease release) s.launches := by
  obtain ⟨r, hr, -, -, ⟨-, rfl⟩ | ⟨-, rfl⟩⟩ := ReleaseState.markRetryable_cases h
  all_goals exact .releasing (hr ▸ nofun) nofun

theorem Turn.recordBlocker {g : UInt64} (h : s.custody.recordBlocker g = some c) :
    Turn a s c s.launches := by
  obtain ⟨release, hr, rfl⟩ := map_eq_some_iff.1 h
  obtain ⟨r, hreleasing, -, -, rfl⟩ := ReleaseState.markFailing_eq_some hr
  exact .releasing (hreleasing ▸ nofun) nofun

/-- One occurrence changes. -/
theorem Turn.set {o' : Occurrence} (hk : s.custody.find k = some o)
    (hterminal : o.terminal = true → o'.terminal = true)
    (hl : ∀ k, launches k ≠ none → s.launches k ≠ none)
    (hsetup : launches k ≠ none → o'.setup = o.setup) : Turn a s (s.custody.set k o') launches where
  released := id
  sound := .inl
  decided := id
  find k' := by
    by_cases hne : k' = k
    · subst hne
      exact .changed o o' hk (CustodyRecord.find_set_self ..) hterminal fun h => ⟨hl _ h, hsetup h⟩
    · exact .kept (CustodyRecord.find_set_of_ne _ _ hne) (hl k')

/-- A report changes no setup and takes back nothing that is terminal. -/
theorem Turn.update (k : OccurrenceKey) {f : Occurrence → Occurrence}
    (hsetup : ∀ o, (f o).setup = o.setup) (hterminal : ∀ o, o.terminal = true → (f o).terminal = true) :
    Turn a s (s.custody.update k f) s.launches := by
  cases hk : s.custody.find k with
  | none =>
    rw [CustodyRecord.update_of_none hk]
    exact .same
  | some o =>
    rw [CustodyRecord.update_of_find hk]
    exact .set hk (hterminal o) (fun _ => id) fun _ => hsetup o

theorem Turn.transport {t : Transport} (hk : s.custody.find k = some o)
    (h : o.transport.fullyRetired = true → t.fullyRetired = true) :
    Turn a s (s.custody.set k { o with transport := t }) s.launches :=
  .set hk (Occurrence.terminal_transport h) (fun _ => id) fun _ => rfl

/-- A launch changes an occurrence whose setup is pending. -/
theorem Turn.launch (hs : Inv s) (hlaunching : s.launches k = some .launching) {o' : Occurrence}
    (hk : s.custody.find k = some o) (hl : ∀ k, launches k ≠ none → s.launches k ≠ none)
    (hsetup : launches k ≠ none → o'.setup = o.setup) : Turn a s (s.custody.set k o') launches := by
  obtain ⟨o₁, ho₁, hpending⟩ := hs.launching k (hlaunching ▸ nofun)
  cases hk.symm.trans ho₁
  refine .set hk (fun ho => ?_) hl hsetup
  cases ho.symm.trans (Occurrence.not_terminal_of_pending hpending)

theorem launches_update {l : Option Launch} (h : l ≠ none → s.launches k ≠ none) :
    ∀ k', Function.update s.launches k l k' ≠ none → s.launches k' ≠ none := by
  intro k' hk'
  by_cases hne : k' = k
  · subst hne
    rw [update_self] at hk'
    exact h hk'
  · rwa [update_of_ne hne] at hk'

theorem Turn.admitOccurrence (h : s.custody.admitOccurrence k = some c) :
    Turn a s c (Function.update s.launches k (some .mapping)) := by
  obtain ⟨hopen, h⟩ := ite_none_left_eq_some.1 h
  obtain ⟨hnone, h⟩ := ite_none_left_eq_some.1 h
  cases h
  refine ⟨id, .inl, id, fun k' => ?_⟩
  by_cases hne : k' = k
  · subst hne
    exact .admitted (not_not.1 hopen) (by simpa using hnone) (CustodyRecord.find_set_self ..)
  · exact .kept (CustodyRecord.find_set_of_ne _ _ hne) (update_of_ne hne .. ▸ id)

theorem Turn.withdraw :
    Turn (.mapFails k) s (s.custody.withdraw k) (Function.update s.launches k none) := by
  have hkept : Turn (.mapFails k) s s.custody (Function.update s.launches k none) :=
    .kept s.custody.releaseState id .inl (launches_update (absurd rfl ·))
  unfold CustodyRecord.withdraw
  split
  next o hk =>
    split_ifs with ho
    · refine ⟨id, .inl, id, fun k' => ?_⟩
      by_cases hne : k' = k
      · subst hne
        have habsent : o.native.created = false := by
          rw [of_decide_eq_true ho.2]
          rfl
        exact .withdrawn rfl o hk ho.1 habsent (AList.lookup_erase _ _) (update_self ..)
      · exact .kept (AList.lookup_erase_ne hne) (update_of_ne hne .. ▸ id)
    · exact hkept
  next => exact hkept

/-! ### Steps -/

/-- A retirement of the custody in the registries. -/
theorem Entries.retire (hs : Inv s) (hpos : 0 < s.retirers) : Entries a s s.retire := by
  have hdone := hs.retirers hpos
  exact ⟨fun _ => .inr hdone, fun _ _ => .inr (.inr hdone), fun _ _ _ => .inr (.inr hdone),
    fun _ => .inl hpos⟩

/-- The recipe or the mapping of one process is replaced. -/
theorem Entries.of_update {cachedSpawns : InstanceId → Option ℕ}
    {custodyByProcess : InstanceId → Option (ℕ × ℕ)}
    (hcached : ∀ p, s.cachedSpawns p = some s.custody.identity →
      cachedSpawns p = some s.custody.identity ∨
        ∃ other, a = .otherCaches p other ∧ cachedSpawns p = some other)
    (hmapped : ∀ p occurrence, s.custodyByProcess p = some (s.custody.identity, occurrence) →
      (∃ occurrence', custodyByProcess p = some (s.custody.identity, occurrence')) ∨
        ∃ other occurrence', a = .otherAdmits p other occurrence' ∧
          custodyByProcess p = some (other, occurrence')) {launches notifiers} :
    Entries a s { s with
      cachedSpawns := cachedSpawns, custodyByProcess := custodyByProcess, launches := launches,
      notifiers := notifiers } where
  registered := .inl
  cachedSpawns p h := (hcached p h).imp_right .inl
  custodyByProcess p o h := (hmapped p o h).imp_right .inl
  retirers := .inl

variable [DecidableEq τ]

theorem turn_of_step (hs : Inv s) (h : s.step a = some t) :
    Turn a s t.custody t.launches ∧ Entries a s t := by
  cases a with
  | request th mode =>
    simp only [State.step, State.workerStep] at h
    split at h <;> cases h
    unfold State.request
    split_ifs
    all_goals exact ⟨.request mode, .same⟩
  | requestTermination th =>
    simp only [State.step, State.workerStep] at h
    split at h <;> cases h
    unfold State.requestTermination
    split_ifs
    all_goals exact ⟨.request .cleanup, .same⟩
  | plan th =>
    simp only [State.step, State.workerStep] at h
    split at h <;> cases h
    unfold State.plan
    split
    next =>
      split
      next hr =>
        unfold State.retry
        split_ifs
        all_goals exact ⟨.retry hr, .same⟩
      next => exact ⟨.same, .same⟩
    next hplan =>
      split
      next release hr =>
        have hall : s.custody.allTerminal = true := by
          unfold CustodyRecord.plan at hplan
          split_ifs at hplan with _ hall
          exact hall
        obtain ⟨hrunning, rfl⟩ := of_guard hr
        exact ⟨.kept .released (fun _ => rfl) (fun _ => .inr hall) fun _ => id, .same⟩
      next => exact ⟨.same, .same⟩
    all_goals exact ⟨.same, .same⟩
  | fail th =>
    simp only [State.step, State.workerStep] at h
    split at h <;> cases h
    unfold State.fail
    split
    next hr =>
      unfold State.retry
      split_ifs
      all_goals exact ⟨.retry hr, .same⟩
    next => exact ⟨.same, .same⟩
  | start th th' | startFails th | lookUp th | act th applied | throws th | spuriousWake th =>
    simp only [State.step, State.workerStep] at h
    split at h <;> cases h
    all_goals exact ⟨.same, .same⟩
  | blocked th =>
    simp only [State.step, State.workerStep] at h
    split at h <;> cases h
    unfold State.recordBlocker
    split
    next hc => exact ⟨.recordBlocker hc, .same⟩
    next => exact ⟨.same, .same⟩
  | setUp th =>
    simp only [State.step, State.workerStep] at h
    split at h
    · obtain ⟨-, rfl⟩ := of_guard h
      exact ⟨.same, .same⟩
    · cases h
  | notify =>
    obtain ⟨-, rfl⟩ := of_guard h
    exact ⟨.same, .same⟩
  | admitOccurrence k =>
    obtain ⟨c, hc, rfl⟩ := map_eq_some_iff.1 h
    exact ⟨.admitOccurrence hc, .same⟩
  | map k =>
    obtain ⟨hl, rfl⟩ := of_guard h
    refine ⟨.kept s.custody.releaseState id .inl (launches_update fun _ => hl ▸ nofun), ?_⟩
    refine .of_update (fun _ => .inl) fun p occurrence hp => .inl ?_
    by_cases hne : p = k.process
    · exact ⟨k.occurrence, hne ▸ update_self ..⟩
    · exact ⟨occurrence, (update_of_ne hne ..).trans hp⟩
  | mapFails k =>
    obtain ⟨-, rfl⟩ := of_guard h
    exact ⟨.withdraw, .same⟩
  | cacheRecipe k =>
    obtain ⟨-, rfl⟩ := of_guard h
    refine ⟨.same, .of_update (fun p hp => .inl ?_) fun _ occurrence hp => .inl ⟨occurrence, hp⟩⟩
    by_cases hne : p = k.process
    · exact hne ▸ update_self ..
    · exact (update_of_ne hne ..).trans hp
  | acquireReservation k =>
    obtain ⟨hl, h⟩ := ite_none_right_eq_some.1 h
    obtain ⟨c, hc, rfl⟩ := map_eq_some_iff.1 h
    obtain ⟨o, o', hk, ho, rfl⟩ := CustodyRecord.tryUpdate_eq_some hc
    cases ho
    exact ⟨.launch hs hl hk (fun _ => id) fun _ => rfl, .same⟩
  | commitCreated k pid startStamp alreadyReaped waitStatus =>
    obtain ⟨hl, h⟩ := ite_none_right_eq_some.1 h
    obtain ⟨c, hc, rfl⟩ := map_eq_some_iff.1 h
    obtain ⟨o, o', hk, ho, rfl⟩ := CustodyRecord.tryUpdate_eq_some hc
    obtain ⟨n, -, rfl⟩ := map_eq_some_iff.1 ho
    exact ⟨.launch hs hl hk (fun _ => id) fun _ => rfl, .same⟩
  | settle k =>
    obtain ⟨hl, h⟩ := ite_none_right_eq_some.1 h
    obtain ⟨c, hc, rfl⟩ := map_eq_some_iff.1 h
    obtain ⟨o, o', hk, -, rfl⟩ := CustodyRecord.tryUpdate_eq_some hc
    refine ⟨.launch hs hl hk (launches_update (absurd rfl ·)) fun hne => ?_, .same⟩
    exact absurd (update_self ..) hne
  | initializationComplete k =>
    cases h
    exact ⟨.update k (fun _ => rfl) fun o ho => by simp_all [Occurrence.terminal], .same⟩
  | publicationRetired k =>
    cases h
    refine ⟨.update k (fun _ => rfl) fun o ho => ?_, .same⟩
    exact Occurrence.terminal_transport (fun h => by simp_all [Transport.fullyRetired,
      Transport.notePublicationRetired]) ho
  | osExit k waitStatus =>
    cases h
    refine ⟨.update k (fun _ => rfl) fun o ho => ?_, .same⟩
    have hexited : o.native.exited = true → (o.native.noteExit waitStatus).2.exited = true := by
      intro h
      rw [NativeAuthority.noteExit, of_decide_eq_true h]
      exact h
    simp only [Occurrence.terminal, Bool.and_eq_true, Bool.or_eq_true] at ho ⊢
    exact ⟨ho.1, ho.2.imp_right fun h => ⟨h.1, hexited h.2⟩⟩
  | readiness reached =>
    obtain ⟨hpending, rfl⟩ := of_guard h
    exact ⟨⟨id, .inl, absurd hpending, fun k => .kept rfl id⟩, .same⟩
  | capture k reader =>
    simp only [State.step, State.reportStep] at h
    split at h <;> cases h
    next c hc =>
      obtain ⟨o, t, hk, ht, rfl⟩ := CustodyRecord.captureAuthority_eq_captured hc
      exact ⟨.transport hk (Transport.fullyRetired_mono (.inl ht)), .same⟩
    next => exact ⟨.same, .same⟩
  | begin k expectedGeneration =>
    obtain ⟨⟨γ, reader, c⟩, hbegin, rfl⟩ := map_eq_some_iff.1 h
    obtain ⟨o, hk, hphase, -, rfl⟩ := CustodyRecord.beginRetirement_eq_some hbegin
    refine ⟨.transport hk fun h => ?_, .same⟩
    simp [Transport.fullyRetired, hphase] at h
  | complete claim =>
    obtain ⟨-, h⟩ := ite_none_right_eq_some.1 h
    obtain ⟨c, hc, rfl⟩ := map_eq_some_iff.1 h
    obtain ⟨o, o', hk, ho, rfl⟩ := CustodyRecord.tryUpdate_eq_some hc
    obtain ⟨t, ht, rfl⟩ := map_eq_some_iff.1 ho
    exact ⟨.transport hk (Transport.fullyRetired_mono (.inr (.inl ht))), .same⟩
  | reset claim =>
    obtain ⟨-, h⟩ := ite_none_right_eq_some.1 h
    split at h <;> cases h
    next c hc =>
      obtain ⟨o, o', hk, ho, rfl⟩ := CustodyRecord.tryUpdate_eq_some hc
      obtain ⟨t, ht, rfl⟩ := map_eq_some_iff.1 ho
      refine ⟨.transport hk ?_, .same⟩
      exact Transport.fullyRetired_mono (r := none) (.inr (.inr (.inr ht)))
    next => exact ⟨.same, .same⟩
  | recordBlocker g =>
    obtain ⟨-, rfl⟩ := of_guard h
    unfold State.recordBlocker
    split
    next hc => exact ⟨.recordBlocker hc, .same⟩
    next => exact ⟨.same, .same⟩
  | checkRetire =>
    obtain ⟨hdone, rfl⟩ := of_guard h
    exact ⟨.same, .inl, fun _ => .inl, fun _ o hp => .inl ⟨o, hp⟩, fun _ => .inr hdone⟩
  | retire =>
    obtain ⟨hpos, rfl⟩ := of_guard h
    refine ⟨?_, .retire hs hpos⟩
    unfold State.retire
    split_ifs
    all_goals exact .same
  | otherAdmits p identity occurrence =>
    obtain ⟨-, rfl⟩ := of_guard h
    refine ⟨.same, .of_update (fun _ => .inl) fun p' o hp => ?_⟩
    by_cases hne : p' = p
    · subst hne
      exact .inr ⟨identity, occurrence, rfl, update_self ..⟩
    · exact .inl ⟨o, (update_of_ne hne ..).trans hp⟩
  | otherCaches p identity =>
    obtain ⟨-, rfl⟩ := of_guard h
    refine ⟨.same, .of_update (fun p' hp => ?_) fun _ o hp => .inl ⟨o, hp⟩⟩
    by_cases hne : p' = p
    · subst hne
      exact .inr ⟨identity, rfl, update_self ..⟩
    · exact .inl ((update_of_ne hne ..).trans hp)

/-! ### Runs -/

variable {identity : ℕ} {phase : ReadinessPhase}

theorem reachable_inv (h : (machine τ identity phase).Reachable s) : Inv s := by
  refine Reachable.invariant ?_ ?_ h
  · rintro _ rfl
    exact ⟨fun _ h => absurd rfl h, nofun, nofun⟩
  · intro s a t hs hstep
    obtain ⟨hturn, hentries⟩ := turn_of_step hs hstep
    exact hs.of_turn hturn hentries

/-- **A release is sound and final.** A custody is released only when every occurrence in its record
is terminal. From then on it stays released, and no occurrence is admitted. An occurrence that was
admitted leaves the record only when its mapping has failed, while its setup is pending and before a
process was created for it. A step takes the custody, its recipe or its mapping out of the registries
only when it is released and its readiness is decided, unless another custody puts its own in their
place. -/
theorem release_sound (h : (machine τ identity phase).Reachable s) :
    (s.custody.releaseState = .released → ∀ k o, s.custody.find k = some o → o.terminal = true) ∧
    (∀ t, (machine τ identity phase).Steps s t → s.custody.releaseState = .released →
      t.custody.releaseState = .released ∧ ∀ k, s.custody.find k = none → t.custody.find k = none) ∧
    (∀ a t k o, s.step a = some t → s.custody.find k = some o → t.custody.find k = none →
      a = .mapFails k ∧ o.setup = .pending ∧ o.native.created = false) ∧
    ∀ a t, s.step a = some t → Entries a s t := by
  refine ⟨(reachable_inv h).released, fun t hst hreleased => ?_, fun a t k o hstep hk hnone => ?_,
    fun a t hstep => (turn_of_step (reachable_inv h) hstep).2⟩
  · induction hst with
    | refl => exact ⟨hreleased, fun _ => id⟩
    | tail hst hstep ih =>
      have hturn := (turn_of_step (reachable_inv (h.steps hst)) hstep).1
      exact ⟨hturn.released ih.1, fun k hk => hturn.not_admitted ih.1 (ih.2 k hk)⟩
  · exact (turn_of_step (reachable_inv h) hstep).1.withdrawn hk hnone

/-- A child is launched, unpublished, joined and has exited; then its custody is released. -/
def releasedRun (caller worker : τ) : List (Action τ) :=
  let k : OccurrenceKey := ⟨5, 0⟩
  [.admitOccurrence k, .map k, .cacheRecipe k, .commitCreated k 42 none false none, .settle k,
    .publicationRetired k, .capture k none, .begin k 0, .complete ⟨k, 0, none⟩, .osExit k (some 0),
    .request caller .passive, .start caller worker, .setUp worker, .lookUp worker, .lookUp worker,
    .plan worker]

theorem release_sound_exited :
    ∃ s : State (Fin 2), (machine (Fin 2) 1 .pending).Reachable s ∧
      s.custody.releaseState = .released ∧
      ∃ o, s.custody.find ⟨5, 0⟩ = some o ∧ o.native.exited = true ∧ o.terminal = true := by
  obtain ⟨s, hs, hreleased, hfind⟩ := exists_reachable_of_exec
    (M := machine (Fin 2) 1 .pending)
    (P := fun s => s.custody.releaseState = .released ∧
      (s.custody.find ⟨5, 0⟩).any (·.native.exited) = true) (releasedRun 0 1) rfl (by decide +kernel)
  obtain ⟨o, ho, hexited⟩ := (any_eq_true _ _).1 hfind
  exact ⟨s, hs, hreleased, o, ho, hexited, (release_sound hs).1 hreleased ⟨5, 0⟩ o ho⟩

/-- After the release, while the readiness is pending, another custody is admitted for the process:
its mapping and its recipe take the place of those of the released one. -/
theorem mapping_replaced :
    ∃ s : State (Fin 2), (machine (Fin 2) 1 .pending).Reachable s ∧ s.custody.readiness = .pending ∧
      s.custodyByProcess 5 = some (1, 0) ∧ s.cachedSpawns 5 = some 1 ∧
      (s.step (.otherAdmits 5 2 0)).any (·.custodyByProcess 5 = some (2, 0)) = true ∧
      (s.step (.otherCaches 5 2)).any (·.cachedSpawns 5 = some 2) = true :=
  exists_reachable_of_exec (releasedRun 0 1) rfl
    (by decide +kernel)

end Releases

end Sintra.Custody
