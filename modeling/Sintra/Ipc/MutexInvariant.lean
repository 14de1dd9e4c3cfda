import Sintra.Ipc.MutexMoves

/-!
# The mutex's invariant

`Inv s` holds in every reachable state (`reachable_inv`).

* **The gate** (`GateInv`): a live thread under the gate is named by the gate's word, and the gate in
  force has one thread under it.
* **The owner** (`OwnerInv`): a nonzero owner word comes with the complete tuple of the thread that
  set it, and a live thread that holds the mutex is that thread.
* **The threads** (`LocalOk`): what a live thread knows at each control point. Under the gate it
  knows the owner's words, since no other thread can write them; the owner word itself can only be
  cleared. `Rely` states what the steps of the others leave alone.
-/

namespace Sintra.Ipc.Mutex

open Function

/-! ### The invariant -/

/-- The gate. -/
structure GateInv (s : State) : Prop where
  recovering_born : s.recovering = 0 ∨ ∃ p ∈ s.procs.born, s.recovering = p.processInstance
  unborn_idle : ∀ t : Thread, t.proc ∉ s.procs.born → s.pc t = .idle
  gate_holder : ∀ t : Thread, t.proc ∈ s.procs.live → (s.pc t).inGate = true →
    s.recovering = t.proc.processInstance
  gate_unique : ∀ t t' : Thread, (s.pc t).inGate = true → (s.pc t').inGate = true →
    s.recovering = t.proc.processInstance → s.recovering = t'.proc.processInstance → t = t'

/-- The words of the owner are those of the thread `t` that published `stamp`. -/
structure OwnedBy (s : State) (t : Thread) (stamp : ℕ) : Prop where
  born : t.proc ∈ s.procs.born
  owner : s.owner = t.ownerToken
  ownerStartStamp : s.ownerStartStamp = stamp
  ownerInstance : s.ownerInstance = t.proc.processInstance
  stamp : stamp = 0 ∨ stamp = t.proc.stamp

/-- The owner. -/
structure OwnerInv (s : State) : Prop where
  unowned : s.holder = none → s.owner = 0
  owned : ∀ t stamp, s.holder = some (t, stamp) → OwnedBy s t stamp
  held_born : ∀ t, s.held t = true → t.proc ∈ s.procs.born
  held_holder : ∀ t, t.proc ∈ s.procs.live → s.held t = true → ∃ stamp, s.holder = some (t, stamp)

/-- The owner word still is the `e` of acquisition number `hold`, or has been cleared. -/
def Seen (s : State) (e hold : ℕ) : Prop := s.acquisitions = hold ∧ (s.owner = e ∨ s.owner = 0)

/-- What a live thread knows at each control point. -/
def LocalOk (s : State) (t : Thread) : Pc → Prop
  | .gateProbe _ h => ∃ p ∈ s.procs.born, h = p.processInstance
  | .gateClear _ h => s.procs.Exited h
  | .storeStamp _ => s.owner = 0
  | .storeInstance _ stamp =>
    s.owner = 0 ∧ s.ownerStartStamp = stamp ∧ (stamp = 0 ∨ stamp = t.proc.stamp)
  | .ownerCas _ stamp =>
    s.owner = 0 ∧ s.ownerStartStamp = stamp ∧ (stamp = 0 ∨ stamp = t.proc.stamp) ∧
      s.ownerInstance = t.proc.processInstance
  | .recoverStamp e hold => Seen s e hold
  | .recoverInstance e hold => Seen s e hold ∧ ownerPid e = t.proc.pid
  | .recoverAlive e stamp hold | .recoverQuery e stamp hold =>
    Seen s e hold ∧ s.ownerStartStamp = stamp
  | .recoverCas e hold =>
    Seen s e hold ∧ (s.owner = e → e ≠ 0 → s.procs.Exited s.ownerInstance)
  | .recursionInstance own => s.ownerInstance = t.proc.processInstance → own = true
  | .release (.recursive result own) => result = true → own = true
  | .raised own => own = true
  | _ => True

/-- The invariant of the mutex. -/
structure Inv (s : State) : Prop where
  gate : GateInv s
  owner : OwnerInv s
  local_ok : ∀ t : Thread, t.proc ∈ s.procs.live → LocalOk s t (s.pc t)

theorem Inv.initial : Inv State.initial where
  gate :=
    { recovering_born := .inl rfl
      unborn_idle := fun _ _ => rfl
      gate_holder := fun _ _ h => by cases h
      gate_unique := fun _ _ h => by cases h }
  owner :=
    { unowned := fun _ => rfl
      owned := fun _ _ h => by cases h
      held_born := fun _ h => by cases h
      held_holder := fun _ _ h => by cases h }
  local_ok := fun _ _ => trivial

variable {s : State}

/-- The owner word is zero exactly while nobody has set it. -/
theorem OwnerInv.owner_eq_zero_iff (hs : OwnerInv s) :
    s.owner = 0 ↔ s.holder = none := by
  refine ⟨fun h0 => ?_, hs.unowned⟩
  cases hh : s.holder with
  | none => rfl
  | some x => exact absurd ((hs.owned x.1 x.2 hh).owner.symm.trans h0) x.1.ownerToken_ne_zero

theorem OwnerInv.exists_holder (hs : OwnerInv s) (h0 : s.owner ≠ 0) :
    ∃ t stamp, s.holder = some (t, stamp) ∧ OwnedBy s t stamp := by
  cases hh : s.holder with
  | none => exact absurd (hs.unowned hh) h0
  | some x => exact ⟨x.1, x.2, rfl, hs.owned x.1 x.2 hh⟩

/-! ### What a thread can rely on -/

/-- What the steps of everybody else leave to a thread `t`. -/
structure Rely (t : Thread) (s s' : State) : Prop where
  born : s.procs.born ⊆ s'.procs.born
  exited : ∀ o, s.procs.Exited o → s'.procs.Exited o
  /-- Under the gate, the owner's words stand still but for a release by the owner. -/
  words : t.proc ∈ s'.procs.live → (s.pc t).inGate = true →
    s'.acquisitions = s.acquisitions ∧ s'.ownerStartStamp = s.ownerStartStamp ∧
      s'.ownerInstance = s.ownerInstance ∧ (s'.owner = s.owner ∨ s'.owner = 0)

theorem Seen.of_words {s' : State} {e hold : ℕ} (h : Seen s e hold)
    (ha : s'.acquisitions = s.acquisitions) (ho : s'.owner = s.owner ∨ s'.owner = 0) :
    Seen s' e hold := by
  refine ⟨ha.trans h.1, ?_⟩
  rcases ho with ho | ho
  · rw [ho]
    exact h.2
  · exact .inr ho

/-- What a thread knows is stable under the steps of everybody else. -/
theorem LocalOk.rely {s' : State} {t : Thread} (hr : Rely t s s') (ht : t.proc ∈ s'.procs.live)
    (h : LocalOk s t (s.pc t)) : LocalOk s' t (s.pc t) := by
  have hw := hr.words ht
  generalize s.pc t = pc at h hw ⊢
  cases pc with
  | idle | loadExpected | recursionOwner
  | gateLoad _ | gateCas _ | checkUnowned _ | recoverOwner _ =>
      trivial
  | gateProbe u holder =>
    obtain ⟨p, hp, hh⟩ := h
    exact ⟨p, hr.born hp, hh⟩
  | gateClear u holder => exact hr.exited _ h
  | storeStamp a =>
    obtain ⟨-, -, -, ho⟩ := hw rfl
    rw [h, or_self] at ho
    exact ho
  | storeInstance a stamp =>
    obtain ⟨h0, hst, hstamp⟩ := h
    obtain ⟨-, hst', -, ho⟩ := hw rfl
    rw [h0, or_self] at ho
    exact ⟨ho, hst'.trans hst, hstamp⟩
  | ownerCas a stamp =>
    obtain ⟨h0, hst, hstamp, hin⟩ := h
    obtain ⟨-, hst', hin', ho⟩ := hw rfl
    rw [h0, or_self] at ho
    exact ⟨ho, hst'.trans hst, hstamp, hin'.trans hin⟩
  | recoverStamp e hold =>
    obtain ⟨ha, -, -, ho⟩ := hw rfl
    exact Seen.of_words h ha ho
  | recoverInstance e hold =>
    obtain ⟨ha, -, -, ho⟩ := hw rfl
    exact ⟨h.1.of_words ha ho, h.2⟩
  | recoverAlive e stamp hold | recoverQuery e stamp hold =>
    obtain ⟨ha, hst, -, ho⟩ := hw rfl
    exact ⟨h.1.of_words ha ho, hst.trans h.2⟩
  | recoverCas e hold =>
    obtain ⟨hseen, hex⟩ := h
    obtain ⟨ha, -, hin, ho⟩ := hw rfl
    refine ⟨hseen.of_words ha ho, fun he h0 => ?_⟩
    rcases ho with ho | ho
    · rw [hin]
      exact hr.exited _ (hex (ho.symm.trans he) h0)
    · exact absurd (he.symm.trans ho) h0
  | recursionInstance own =>
    obtain ⟨-, -, hin, -⟩ := hw rfl
    exact fun heq => h (hin.symm.trans heq)
  | release after => cases after <;> exact h
  | raised own => exact h

/-! ### Preservation, one lemma per kind of move -/

section preserved

variable {s s' : State} {t : Thread} {pc pc' : Pc}

/-- Two live threads under the gate are one. -/
theorem GateInv.eq_of_inGate (hs : GateInv s) {t t' : Thread} (ht : t.proc ∈ s.procs.live)
    (ht' : t'.proc ∈ s.procs.live) (hin : (s.pc t).inGate = true) (hin' : (s.pc t').inGate = true) :
    t = t' :=
  hs.gate_unique t t' hin hin' (hs.gate_holder t ht hin) (hs.gate_holder t' ht' hin')

theorem GateInv.unborn_idle_goto (hs : GateInv s) (ht : t.proc ∈ s.procs.live)
    (hborn : s'.procs.born = s.procs.born) (hpc : s'.pc = update s.pc t pc') :
    ∀ t' : Thread, t'.proc ∉ s'.procs.born → s'.pc t' = .idle := by
  intro t' ht'
  rw [hborn] at ht'
  have hne : t' ≠ t := by
    rintro rfl
    exact ht' (s.procs.live_born ht)
  rw [hpc, update_of_ne hne]
  exact hs.unborn_idle t' ht'

/-- A move that neither enters nor leaves the gate. -/
theorem GateInv.goto (hs : GateInv s) (ht : t.proc ∈ s.procs.live) (hprocs : s'.procs = s.procs)
    (hrec : s'.recovering = s.recovering) (hpc : s'.pc = update s.pc t pc')
    (hgate : pc'.inGate = (s.pc t).inGate) : GateInv s' := by
  have hin : ∀ t', (s'.pc t').inGate = (s.pc t').inGate := by
    intro t'
    rw [hpc]
    by_cases htt : t' = t
    · rw [htt, update_self, hgate]
    · rw [update_of_ne htt]
  exact
    { recovering_born := by rw [hrec, hprocs]; exact hs.recovering_born
      unborn_idle := hs.unborn_idle_goto ht (by rw [hprocs]) hpc
      gate_holder := fun t' ht' h' => by
        rw [hrec]
        exact hs.gate_holder t' (hprocs ▸ ht') (hin t' ▸ h')
      gate_unique := fun t₁ t₂ h₁ h₂ => by
        rw [hrec]
        exact hs.gate_unique t₁ t₂ (hin t₁ ▸ h₁) (hin t₂ ▸ h₂) }

/-- What all threads know after `t` moved to `pc'`. -/
theorem Inv.local_ok_goto (hs : Inv s) (hprocs : s'.procs = s.procs)
    (hpc : s'.pc = update s.pc t pc') (hr : ∀ t', t' ≠ t → t'.proc ∈ s.procs.live → Rely t' s s')
    (hnew : LocalOk s' t pc') :
    ∀ t' : Thread, t'.proc ∈ s'.procs.live → LocalOk s' t' (s'.pc t') := by
  intro t' ht'
  rw [hpc]
  by_cases htt : t' = t
  · rw [htt, update_self]
    exact hnew
  · rw [update_of_ne htt]
    have hlive : t'.proc ∈ s.procs.live := hprocs ▸ ht'
    exact (hs.local_ok t' hlive).rely (hr t' htt hlive) ht'

/-- Nobody else relies on the words while a live thread is under the gate. -/
theorem GateInv.rely (hs : GateInv s) (ht : t.proc ∈ s.procs.live) (hin : (s.pc t).inGate = true)
    (hprocs : s'.procs = s.procs) : ∀ t', t' ≠ t → t'.proc ∈ s.procs.live → Rely t' s s' :=
  fun t' htt ht' =>
    { born := by rw [hprocs]
      exited := fun o h => by rwa [hprocs]
      words := fun _ hin' => absurd (hs.eq_of_inGate ht' ht hin' hin) htt }

theorem localOk_of_plain (h : pc'.plain = true) : LocalOk s t pc' := by
  cases pc' <;> simp_all [Pc.plain, LocalOk]

/-- A write of the owner's tuple while the mutex is unowned. -/
theorem OwnerInv.of_unowned (hs : OwnerInv s) (h0 : s.owner = 0) {stamp instance' : ℕ} :
    OwnerInv ({ s with ownerStartStamp := stamp, ownerInstance := instance' }.goto t pc') := { hs with
  owned := fun t stamp h => by
    change s.holder = _ at h
    rw [hs.owner_eq_zero_iff.mp h0] at h
    cases h }

/-- Clearing the owner word: the holder is not live, or its flag is cleared with it. -/
theorem OwnerInv.clear (hs : OwnerInv s) (hprocs : s'.procs = s.procs) (ho : s'.owner = 0)
    (hh : s'.holder = none) (hsub : ∀ t, s'.held t = true → s.held t = true)
    (hheld : ∀ t stamp, s.holder = some (t, stamp) → t.proc ∈ s.procs.live → s'.held t = false) :
    OwnerInv s' where
  unowned := fun _ => ho
  owned := fun t stamp h => by
    rw [hh] at h
    cases h
  held_born := fun t h => by
    rw [hprocs]
    exact hs.held_born t (hsub t h)
  held_holder := fun t ht h => by
    rw [hprocs] at ht
    obtain ⟨stamp, hst⟩ := hs.held_holder t ht (hsub t h)
    rw [hheld t stamp hst ht] at h
    cases h

/-- The owner judged by its PID and stamp has exited. -/
theorem Inv.exited_of_not_live (hs : Inv s) {e stamp : ℕ} (hst : s.ownerStartStamp = stamp)
    (hdead : ∀ p : Incarnation, p.pid = ownerPid e → (stamp = 0 ∨ stamp = p.stamp) →
      p ∉ s.procs.live) (he : s.owner = e) (h0 : e ≠ 0) : s.procs.Exited s.ownerInstance := by
  obtain ⟨t', stamp', -, hown⟩ := hs.owner.exists_holder (he ▸ h0)
  have hstamp : stamp = stamp' := hst.symm.trans hown.ownerStartStamp
  refine ⟨t'.proc, hown.born, hdead t'.proc ?_ (hstamp ▸ hown.stamp), hown.ownerInstance⟩
  rw [← he, hown.owner, ownerPid_ownerToken]

section

variable (hs : Inv s) (ht : t.proc ∈ s.procs.live)

include hs ht

theorem Inv.local_at (hpc : s.pc t = pc) : LocalOk s t pc := by
  rw [← hpc]
  exact hs.local_ok t ht

omit ht in
/-- A move that leaves the owner's words alone. -/
theorem Inv.regate {g : ℕ} {c : Thread → Call}
    (hgate : GateInv ({ s with recovering := g, call := c }.goto t pc'))
    (hl : LocalOk ({ s with recovering := g, call := c }.goto t pc') t pc') :
    Inv ({ s with recovering := g, call := c }.goto t pc') where
  gate := hgate
  owner := { hs.owner with owned := fun t stamp h => { hs.owner.owned t stamp h with } }
  local_ok := hs.local_ok_goto rfl rfl (fun _ _ _ =>
    { born := fun _ h => h
      exited := fun _ h => h
      words := fun _ _ => ⟨rfl, rfl, rfl, .inl rfl⟩ }) hl

/-- A move under the gate that writes the owner's words. -/
theorem Inv.write (hpc : s.pc t = pc) (hin : pc.inGate = true) (hin' : pc'.inGate = true)
    (hprocs : s'.procs = s.procs) (hrec : s'.recovering = s.recovering)
    (hpc' : s'.pc = update s.pc t pc') (howner : OwnerInv s') (hl : LocalOk s' t pc') : Inv s' := by
  subst hpc
  exact
    { gate := hs.gate.goto ht hprocs hrec hpc' (hin'.trans hin.symm)
      owner := howner
      local_ok := hs.local_ok_goto hprocs hpc' (hs.gate.rely ht hin hprocs) hl }

/-- A silent move. -/
theorem Inv.goto (hgate : pc'.inGate = (s.pc t).inGate) (hl : LocalOk s t pc') :
    Inv (s.goto t pc') :=
  hs.regate (hs.gate.goto ht rfl rfl rfl hgate) hl

theorem Inv.outside (h : Outside s t pc') : Inv (s.goto t pc') := by
  obtain ⟨hout, hout'⟩ := h.inGate_eq_false
  refine hs.goto ht (hout'.trans hout.symm) ?_
  cases h with
  | plain _ hp => exact localOk_of_plain hp
  | gateBusy h h0 => exact hs.gate.recovering_born.resolve_left h0
  | gateExited h ha he => exact exited_of_processInstanceHasExited ht (hs.local_at ht h) ha he

/-- The owner judged by a thread of the same PID has exited if it recorded another instance. -/
theorem Inv.exited_of_otherInstance {e : ℕ} (hpid : ownerPid e = t.proc.pid)
    (hne : s.ownerInstance ≠ t.proc.processInstance) (he : s.owner = e) (h0 : e ≠ 0) :
    s.procs.Exited s.ownerInstance := by
  obtain ⟨t', stamp, -, hown⟩ := hs.owner.exists_holder (he ▸ h0)
  refine ⟨t'.proc, hown.born, fun hlive => hne ?_, hown.ownerInstance⟩
  rw [← he, hown.owner, ownerPid_ownerToken] at hpid
  rw [hown.ownerInstance, s.procs.pid_unique _ hlive _ ht hpid]

theorem Inv.inside (h : Inside s t pc') : Inv (s.goto t pc') := by
  obtain ⟨hin, hin'⟩ := h.inGate_eq_true
  refine hs.goto ht (hin'.trans hin.symm) ?_
  cases h with
  | @done after _ hr =>
    cases after with
    | acquired | notAcquired _ | recovered _ _ => trivial
    | recursive r own => exact fun h => absurd (hr r own rfl) (by rw [h]; exact Bool.noConfusion)
  | unowned h h0 => exact h0
  | sawOwner h he => exact ⟨rfl, .inl he⟩
  | samePid h hpid => exact ⟨hs.local_at ht h, hpid⟩
  | otherPid h => exact ⟨hs.local_at ht h, rfl⟩
  | otherInstance h hne =>
    obtain ⟨hseen, hpid⟩ := hs.local_at ht h
    exact ⟨hseen, hs.exited_of_otherInstance ht hpid hne⟩
  | notAlive h ha =>
    obtain ⟨hseen, hst⟩ := hs.local_at ht h
    refine ⟨hseen, hs.exited_of_not_live hst fun p hp _ hlive => ?_⟩
    exact ha rfl p hlive hp
  | query h =>
    obtain ⟨hseen, hst⟩ := hs.local_at ht h
    exact ⟨hseen, hst⟩
  | stale h hcur hstale =>
    obtain ⟨hseen, hst⟩ := hs.local_at ht h
    refine ⟨hseen, hs.exited_of_not_live hst fun p hp hstamp => ?_⟩
    exact not_live_of_ownerGenerationIsStale hstamp (hp ▸ hcur) hstale
  | sawSelf h ho =>
    intro hinst
    obtain ⟨t', stamp, hh, hown⟩ := hs.owner.exists_holder (ho ▸ t.ownerToken_ne_zero)
    have hproc : t'.proc = t.proc := s.procs.instance_unique _ hown.born _ (s.procs.live_born ht)
      (hown.ownerInstance.symm.trans hinst)
    have htt : t' = t := Thread.eq_of_ownerToken (hown.owner.symm.trans ho) hproc
    simp [hh, htt]
  | compared h => exact fun heq => hs.local_at ht h (by simpa using heq)

theorem Inv.clearGate {u : GateUse} (hpc : s.pc t = .gateClear u s.recovering) :
    Inv ({ s with recovering := 0 }.goto t (.gateCas u)) := by
  have hex : s.procs.Exited s.recovering := hs.local_at ht hpc
  have hsec : ∀ t', (update s.pc t (.gateCas u) t').inGate = true →
      (s.pc t').inGate = true := by
    intro t' h'
    by_cases htt : t' = t
    · rw [htt, update_self] at h'
      cases h'
    · rwa [update_of_ne htt] at h'
  refine hs.regate ?_ trivial
  exact
    { recovering_born := .inl rfl
      unborn_idle := hs.gate.unborn_idle_goto ht rfl rfl
      gate_holder := fun t' ht' h' =>
        absurd (hs.gate.gate_holder t' ht' (hsec t' h')) (hex.ne_of_live ht')
      gate_unique := fun t₁ _ _ _ h => absurd h.symm t₁.proc.processInstance_ne_zero }

theorem Inv.enterGate {u : GateUse} (h0 : s.recovering = 0) :
    Inv ({ s with recovering := t.proc.processInstance }.goto t u.entry) := by
  -- nobody live, and nobody of the entering process, is under the free gate
  have hfree : ∀ t', t' ≠ t → t'.proc.processInstance = t.proc.processInstance →
      (s.pc t').inGate = false := by
    intro t' _ heq
    by_contra hin
    have hin : (s.pc t').inGate = true := by simpa using hin
    have hborn : t'.proc ∈ s.procs.born := by
      by_contra hb
      rw [hs.gate.unborn_idle t' hb] at hin
      cases hin
    have hproc := s.procs.instance_unique _ hborn _ (s.procs.live_born ht) heq
    have hrec := hs.gate.gate_holder t' (hproc ▸ ht) hin
    exact t'.proc.processInstance_ne_zero (hrec.symm.trans h0)
  have hself : ∀ t', (update s.pc t u.entry t').inGate = true →
      t.proc.processInstance = t'.proc.processInstance → t' = t := by
    intro t' hin heq
    by_contra htt
    rw [update_of_ne htt, hfree t' htt heq.symm] at hin
    cases hin
  refine hs.regate ?_ (by cases u <;> trivial)
  exact
    { recovering_born := .inr ⟨t.proc, s.procs.live_born ht, rfl⟩
      unborn_idle := hs.gate.unborn_idle_goto ht rfl rfl
      gate_holder := fun t' ht' h' => by
        by_cases htt : t' = t
        · rw [htt]
          rfl
        · change (update s.pc t u.entry t').inGate = true at h'
          have hin : (s.pc t').inGate = true := by rwa [update_of_ne htt] at h'
          have hrec := hs.gate.gate_holder t' ht' hin
          exact absurd (hrec.symm.trans h0) t'.proc.processInstance_ne_zero
      gate_unique := fun t₁ t₂ h₁ h₂ e₁ e₂ => (hself t₁ h₁ e₁).trans (hself t₂ h₂ e₂).symm }

theorem Inv.leaveGate {after : After} (hpc : s.pc t = .release after)
    (hp : pc'.plain = true ∨ ∃ own, after = .recursive true own ∧ pc' = .raised own) :
    Inv ({ s with
      recovering := if s.recovering = t.proc.processInstance then 0 else s.recovering }.goto t
        pc') := by
  have hin : (s.pc t).inGate = true := by rw [hpc]; rfl
  have hrec : s.recovering = t.proc.processInstance := hs.gate.gate_holder t ht hin
  have hout : pc'.inGate = false := by
    rcases hp with hp | ⟨own, -, rfl⟩
    · exact Pc.inGate_of_plain hp
    · rfl
  rw [if_pos hrec]
  have hgone : ∀ t' : Thread, t'.proc ∈ s.procs.live →
      (update s.pc t pc' t').inGate = false := by
    intro t' ht'
    by_cases htt : t' = t
    · rw [htt, update_self, hout]
    · rw [update_of_ne htt]
      by_contra h'
      exact htt (hs.gate.eq_of_inGate ht' ht (by simpa using h') hin)
  refine hs.regate ?_ ?_
  · exact
      { recovering_born := .inl rfl
        unborn_idle := hs.gate.unborn_idle_goto ht rfl rfl
        gate_holder := fun t' ht' h' => absurd ((hgone t' ht').symm.trans h') Bool.false_ne_true
        gate_unique := fun t₁ _ _ _ h => absurd h.symm t₁.proc.processInstance_ne_zero }
  · rcases hp with hp | ⟨own, rfl, rfl⟩
    · exact localOk_of_plain hp
    · exact hs.local_at ht hpc rfl

theorem Inv.storeStamp {a : Attempt} {stamp : ℕ} (hpc : s.pc t = .storeStamp a)
    (hstamp : stamp = 0 ∨ stamp = t.proc.stamp) :
    Inv ({ s with ownerStartStamp := stamp }.goto t (.storeInstance a stamp)) := by
  have h0 : s.owner = 0 := hs.local_at ht hpc
  exact hs.write ht hpc rfl rfl rfl rfl rfl (hs.owner.of_unowned h0)
    ⟨h0, rfl, hstamp⟩

theorem Inv.storeInstance {a : Attempt} {stamp : ℕ} (hpc : s.pc t = .storeInstance a stamp) :
    Inv ({ s with ownerInstance := t.proc.processInstance }.goto t (.ownerCas a stamp)) := by
  obtain ⟨h0, hst, hstamp⟩ := hs.local_at ht hpc
  exact hs.write ht hpc rfl rfl rfl rfl rfl (hs.owner.of_unowned h0)
    ⟨h0, hst, hstamp, rfl⟩

theorem Inv.acquire {a : Attempt} {stamp : ℕ} (hpc : s.pc t = .ownerCas a stamp) :
    Inv ((s.acquire t stamp).goto t (.release .acquired)) := by
  obtain ⟨h0, hst, hstamp, hinst⟩ := hs.local_at ht hpc
  have hborn := s.procs.live_born ht
  refine hs.write ht hpc rfl rfl rfl rfl rfl ⟨nofun, fun t' stamp' h => ?_, fun t' h => ?_,
    fun t' ht' h => ?_⟩ trivial
  · cases h
    exact ⟨hborn, rfl, hst, hinst, hstamp⟩
  all_goals change update s.held t true t' = true at h
  · by_cases htt : t' = t
    · rw [htt]
      exact hborn
    · rw [update_of_ne htt] at h
      exact hs.owner.held_born t' h
  · by_cases htt : t' = t
    · rw [htt]
      exact ⟨stamp, rfl⟩
    · rw [update_of_ne htt] at h
      obtain ⟨stamp', hh⟩ := hs.owner.held_holder t' ht' h
      rw [hs.owner.owner_eq_zero_iff.mp h0] at hh
      cases hh

theorem Inv.recover {hold : ℕ} (hpc : s.pc t = .recoverCas s.owner hold) :
    Inv ({ s with owner := 0, holder := none }.goto t (.release (.recovered s.owner true))) := by
  refine hs.write ht hpc rfl rfl rfl rfl rfl ?_ trivial
  refine hs.owner.clear rfl rfl rfl (fun _ h => h) fun t' stamp hh hlive => ?_
  have hown := hs.owner.owned t' stamp hh
  have hex := (hs.local_at ht hpc).2 rfl (hown.owner ▸ t'.ownerToken_ne_zero)
  exact absurd hown.ownerInstance (hex.ne_of_live hlive)

theorem Inv.move (h : Move s t s') : Inv s' := by
  cases h with
  | outside h => exact hs.outside ht h
  | inside h => exact hs.inside ht h
  | clearGate h => exact hs.clearGate ht h
  | enterGate _ h0 => exact hs.enterGate ht h0
  | leaveGate h hp => exact hs.leaveGate ht h hp
  | storeStamp h hstamp => exact hs.storeStamp ht h hstamp
  | storeInstance h => exact hs.storeInstance ht h
  | acquire h _ => exact hs.acquire ht h
  | recover h he =>
    subst he
    exact hs.recover ht h

end

/-- A release of the owner word by a thread of the process `p`, by `unlock` or `unlock_owned`. -/
theorem Inv.releaseOwned (hs : Inv s) {p : Incarnation} (hp : p ∈ s.procs.live)
    (hpid : ownerPid s.owner = p.pid) : Inv (s.releaseOwned p s.owner) := by
  have hsub : ∀ t', (s.releaseOwned p s.owner).held t' = true → s.held t' = true := by
    intro t' h
    simp only [State.releaseOwned] at h
    split_ifs at h
    exact h
  refine
    { gate := { hs.gate with }
      owner := hs.owner.clear rfl rfl rfl hsub fun t' stamp hh hlive => ?_
      local_ok := fun t' ht' => ?_ }
  · have hown := hs.owner.owned t' stamp hh
    rw [hown.owner, ownerPid_ownerToken] at hpid
    have hproc : t'.proc = p := s.procs.pid_unique _ hlive _ hp hpid
    simp [State.releaseOwned, hproc, hown.owner]
  · have hr : Rely t' s (s.releaseOwned p s.owner) :=
      { born := fun _ h => h
        exited := fun _ h => h
        words := fun _ _ => ⟨rfl, rfl, rfl, .inr rfl⟩ }
    change LocalOk _ t' (s.pc t')
    exact (hs.local_ok t' ht').rely hr ht'

theorem Inv.start (hs : Inv s) {p : Incarnation} (hp : s.procs.Startable p) :
    Inv { s with procs := s.procs.start p hp } := by
  have hborn : s.procs.born ⊆ (s.procs.start p hp).born := fun q hq =>
    (ProcessTable.mem_born_start hp).mpr (.inr hq)
  have hlive : ∀ q ∈ s.procs.born, q ∈ (s.procs.start p hp).live → q ∈ s.procs.live := by
    intro q hq hql
    rcases (ProcessTable.mem_live_start hp).mp hql with rfl | hql
    · exact absurd hq hp.not_mem_born
    · exact hql
  have hidle : ∀ t : Thread, s.pc t ≠ .idle → t.proc ∈ s.procs.born := fun t h => by
    by_contra hb
    exact h (hs.gate.unborn_idle t hb)
  refine
    { gate :=
        { recovering_born := hs.gate.recovering_born.imp_right fun ⟨q, hq, h⟩ => ⟨q, hborn hq, h⟩
          unborn_idle := fun t ht => hs.gate.unborn_idle t fun h => ht (hborn h)
          gate_holder := fun t ht hin => ?_
          gate_unique := hs.gate.gate_unique }
      owner :=
        { unowned := hs.owner.unowned
          owned := fun t stamp h => ?_
          held_born := fun t h => hborn (hs.owner.held_born t h)
          held_holder := fun t ht h => hs.owner.held_holder t (hlive _ ?_ ht) h }
      local_ok := fun t ht => ?_ }
  · refine hs.gate.gate_holder t (hlive _ (hidle t fun h => ?_) ht) hin
    rw [show s.pc t = .idle from h] at hin
    cases hin
  · have hown := hs.owner.owned t stamp h
    exact { hown with born := hborn hown.born }
  · exact hs.owner.held_born t h
  · change LocalOk _ t (s.pc t)
    by_cases h : s.pc t = .idle
    · rw [h]
      trivial
    · have hr : Rely t s { s with procs := s.procs.start p hp } :=
        { born := hborn
          exited := fun _ hex => hex.start hp
          words := fun _ _ => ⟨rfl, rfl, rfl, .inl rfl⟩ }
      exact (hs.local_ok t (hlive _ (hidle t h) ht)).rely hr ht

theorem Inv.exit (hs : Inv s) (p : Incarnation) : Inv { s with procs := s.procs.exit p } := by
  have hlive : ∀ q, q ∈ (s.procs.exit p).live → q ∈ s.procs.live := fun q hq =>
    (ProcessTable.mem_live_exit.mp hq).2
  refine
    { gate := { hs.gate with gate_holder := fun t ht => hs.gate.gate_holder t (hlive _ ht) }
      owner := { hs.owner with
        owned := fun t stamp h => { hs.owner.owned t stamp h with }
        held_holder := fun t ht => hs.owner.held_holder t (hlive _ ht) }
      local_ok := fun t ht => ?_ }
  have hr : Rely t s { s with procs := s.procs.exit p } :=
    { born := fun _ h => h
      exited := fun _ hex => hex.exit p
      words := fun _ _ => ⟨rfl, rfl, rfl, .inl rfl⟩ }
  change LocalOk _ t (s.pc t)
  exact (hs.local_ok t (hlive _ ht)).rely hr ht

end preserved

/-! ### Every reachable state -/

theorem Inv.step {s' : State} {a : Action} (hs : Inv s) (h : s.step a = some s') : Inv s' := by
  cases a with
  | start p =>
    simp only [State.step] at h
    split_ifs at h with hp
    cases h
    exact hs.start hp
  | exit p =>
    obtain ⟨-, rfl⟩ := Machine.of_guard h
    exact hs.exit p
  | call t c =>
    obtain ⟨hc, rfl⟩ := Machine.of_guard h
    refine hs.regate (hs.gate.goto hc.1 rfl rfl rfl ?_) trivial
    rw [hc.2]
    rfl
  | unlock t =>
    simp only [State.step] at h
    split_ifs at h with hc ho <;> cases h
    · rw [← ho]
      exact hs.releaseOwned hc.1 (by rw [ho, ownerPid_ownerToken])
    · exact hs
  | unlockOwned t token =>
    simp only [State.step] at h
    split_ifs at h with hc ho <;> cases h
    · rw [← ho.2]
      exact hs.releaseOwned hc.1 (by rw [ho.2, ho.1])
    · exact hs
  | next t b current =>
    simp only [State.step] at h
    split_ifs at h with ht
    exact hs.move ht (move_of_next h)

/-- The invariant holds in every state the mutex can reach. -/
theorem reachable_inv (h : machine.Reachable s) : Inv s := by
  refine h.invariant (fun s hs => ?_) fun s a s' hs hstep => hs.step hstep
  rw [show s = State.initial from hs]
  exact Inv.initial

end Sintra.Ipc.Mutex
