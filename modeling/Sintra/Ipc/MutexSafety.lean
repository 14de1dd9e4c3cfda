import Sintra.Ipc.MutexInvariant

/-!
# What the mutex guarantees
-/

namespace Sintra.Ipc.Mutex

open Machine

section guarantee

variable {s s' : State}

variable {t : Thread}

theorem Inv.held_unique (hs : Inv s) {t' : Thread} (ht : t.proc ∈ s.procs.live)
    (ht' : t'.proc ∈ s.procs.live) (h : s.held t = true) (h' : s.held t' = true) : t = t' := by
  obtain ⟨stamp, hh⟩ := hs.owner.held_holder t ht h
  obtain ⟨stamp', hh'⟩ := hs.owner.held_holder t' ht' h'
  rw [hh] at hh'
  cases hh'
  rfl

/-- A recovery that clears the owner word clears the acquisition it loaded under the gate, and the
owner of that acquisition has exited. -/
theorem Inv.recover_exited (hs : Inv s) {b : Bool} {current : Option ℕ} {e hold : ℕ}
    (hpc : s.pc t = .recoverCas e hold) (h : s.step (.next t b current) = some s')
    (hne : s'.owner ≠ s.owner) :
    ∃ t' stamp, s.holder = some (t', stamp) ∧ t'.proc ∉ s.procs.live ∧ s.acquisitions = hold := by
  simp only [State.step] at h
  split_ifs at h with ht
  have hl := hs.local_ok t ht
  rw [hpc] at hl
  obtain ⟨hseen, hex⟩ := hl
  simp only [State.next, hpc] at h
  split_ifs at h with he <;> cases h
  · have h0 : s.owner ≠ 0 := fun h0 => hne (by rw [h0]; rfl)
    obtain ⟨t', stamp, hh, hown⟩ := hs.owner.exists_holder h0
    have hdead := hex he (he ▸ h0)
    refine ⟨t', stamp, hh, fun hlive => ?_, hseen.1⟩
    exact hdead.ne_of_live hlive hown.ownerInstance
  · exact absurd rfl hne

/-- What a move of a live thread does to the holder: nothing, an acquisition of the unowned mutex,
or a recovery. -/
theorem Move.holder_cases (h : Move s t s') :
    s'.holder = s.holder ∨ s.owner = 0 ∨ ∃ hold, s.pc t = .recoverCas s.owner hold := by
  cases h with
  | outside _ | inside _ | clearGate _ | enterGate _ _ | leaveGate _ _ | storeStamp _ _
  | storeInstance _ => exact .inl rfl
  | acquire _ h0 => exact .inr (.inl h0)
  | @recover e hold h he => exact .inr (.inr ⟨hold, he ▸ h⟩)

/-- A live owner loses the mutex only by a call of its own process. -/
theorem Inv.holder_lost (hs : Inv s) {a : Action} (h : s.step a = some s') {stamp : ℕ}
    (hh : s.holder = some (t, stamp)) (ht : t.proc ∈ s.procs.live) (hne : s'.holder ≠ s.holder) :
    a = .unlock t ∨ ∃ t' : Thread, t'.proc = t.proc ∧ a = .unlockOwned t' t.ownerToken := by
  have hown := hs.owner.owned t stamp hh
  cases a with
  | start p | exit p | call t' c =>
    simp only [State.step] at h
    split_ifs at h
    cases h
    exact absurd rfl hne
  | unlock t' =>
    simp only [State.step] at h
    split_ifs at h with hc ho <;> cases h
    · have htok : t'.ownerToken = t.ownerToken := ho.symm.trans hown.owner
      have hpid : t'.proc.pid = t.proc.pid := by
        rw [← ownerPid_ownerToken t', htok, ownerPid_ownerToken]
      have hproc := s.procs.pid_unique _ hc.1 _ ht hpid
      exact .inl (by rw [Thread.eq_of_ownerToken htok hproc])
    · exact absurd rfl hne
  | unlockOwned t' token =>
    simp only [State.step] at h
    split_ifs at h with hc ho <;> cases h
    · have htok : token = t.ownerToken := ho.2.symm.trans hown.owner
      have hpid : t'.proc.pid = t.proc.pid := by rw [← ho.1, htok, ownerPid_ownerToken]
      exact .inr ⟨t', s.procs.pid_unique _ hc.1 _ ht hpid, by rw [htok]⟩
    · exact absurd rfl hne
  | next t' b current =>
    simp only [State.step] at h
    split_ifs at h with ht'
    rcases (move_of_next h).holder_cases with heq | h0 | ⟨hold, hpc⟩
    · exact absurd heq hne
    · exact absurd (hown.owner.symm.trans h0) t.ownerToken_ne_zero
    · have hl := hs.local_ok t' ht'
      rw [hpc] at hl
      have hex := hl.2 rfl (hown.owner ▸ t.ownerToken_ne_zero)
      exact absurd hown.ownerInstance (hex.ne_of_live ht)

/-- **The crash-robust mutex.** In every reachable state:

* at most one live thread holds the mutex, and it is the owner that the words name;
* a nonzero owner word comes with the complete tuple of its owner: the stamp that the owner read
  (zero if it could read none) and its process instance;
* a recovery that clears the owner word clears the acquisition that it loaded and judged under the
  gate, whose owner has exited;
* a thread at the recursion error owned the mutex when its check loaded the owner word;
* a live owner loses the mutex only by its own `unlock` or an `unlock_owned` in its process. -/
theorem mutex_crash_robust (hs : machine.Reachable s) :
    (∀ t t' : Thread, t.proc ∈ s.procs.live → t'.proc ∈ s.procs.live → s.held t = true →
      s.held t' = true → t = t') ∧
    (∀ t : Thread, t.proc ∈ s.procs.live → s.held t = true → ∃ stamp, OwnedBy s t stamp) ∧
    (s.owner ≠ 0 → ∃ t stamp, s.holder = some (t, stamp) ∧ OwnedBy s t stamp) ∧
    (∀ (t : Thread) (b : Bool) (current : Option ℕ) (e hold : ℕ) (s' : State),
      s.pc t = .recoverCas e hold → machine.step s (.next t b current) = some s' →
      s'.owner ≠ s.owner →
      ∃ t' stamp, s.holder = some (t', stamp) ∧ t'.proc ∉ s.procs.live ∧ s.acquisitions = hold) ∧
    (∀ (t : Thread) (own : Bool), t.proc ∈ s.procs.live → s.pc t = .raised own → own = true) ∧
    (∀ (a : Action) (s' : State) (t : Thread) (stamp : ℕ), machine.step s a = some s' →
      s.holder = some (t, stamp) → t.proc ∈ s.procs.live → s'.holder ≠ s.holder →
      a = .unlock t ∨ ∃ t' : Thread, t'.proc = t.proc ∧ a = .unlockOwned t' t.ownerToken) := by
  have hinv := reachable_inv hs
  refine ⟨fun t t' ht ht' h h' => hinv.held_unique ht ht' h h', fun t ht h => ?_,
    hinv.owner.exists_holder,
    fun t b current e hold s' hpc hstep hne => hinv.recover_exited hpc hstep hne,
    fun t own ht hpc => ?_, fun a s' t stamp hstep hh ht hne => hinv.holder_lost hstep hh ht hne⟩
  · obtain ⟨stamp, hh⟩ := hinv.owner.held_holder t ht h
    exact ⟨stamp, hinv.owner.owned t stamp hh⟩
  · have hl := hinv.local_ok t ht
    rw [hpc] at hl
    exact hl

/-- **The gate is exclusive**, though its word names only a process: one live thread at a time acquires,
recovers or checks for recursion. -/
theorem gate_exclusive (hs : machine.Reachable s) {t t' : Thread} (ht : t.proc ∈ s.procs.live)
    (ht' : t'.proc ∈ s.procs.live) (h : (s.pc t).inGate = true) (h' : (s.pc t').inGate = true) :
    t = t' := by
  have hgate := (reachable_inv hs).gate
  exact hgate.gate_unique t t' h h' (hgate.gate_holder t ht h) (hgate.gate_holder t' ht' h')

end guarantee

/-! ### An owner that dies under the gate -/

/-- A process with two threads. -/
def custodian : Incarnation where
  pid := 1
  stamp := 1
  token := 0
  pid_pos := by omega
  pid_lt := by omega
  token_lt := by omega

/-- The thread that locks the mutex. -/
def relocker : Thread := ⟨custodian, 1, by omega⟩

/-- A thread of another process. -/
def heir : Thread := ⟨⟨2, 1, 0, by omega, by omega, by omega⟩, 1, by omega⟩

/-- The owner's process dies when the owner word is set and the gate not yet released. The heir clears the
gate, finds the mutex owned, and judges the owner under the gate. -/
def crashRun : List Action :=
  [.start custodian, .call relocker .lock] ++ List.replicate 6 (.next relocker true none) ++
    [.exit custodian, .start heir.proc, .call heir .lock] ++ List.replicate 12 (.next heir false none)

/-- The heir clears the word of an owner that has exited, and then owns the mutex; the dead thread has
never given it back. -/
theorem mutex_crash_robust_crash :
    (∃ s s', machine.Reachable s ∧ s.owner = relocker.ownerToken ∧
      machine.step s (.next heir false none) = some s' ∧ s'.owner = 0 ∧
      ∃ t stamp, s.holder = some (t, stamp) ∧ t.proc ∉ s.procs.live ∧ s.acquisitions = 1) ∧
    ∃ s, machine.Reachable s ∧ s.held relocker = true ∧ s.held heir = true ∧
      (∀ t, t.proc ∈ s.procs.live → s.held t = true → t = heir) ∧ ∃ stamp, OwnedBy s heir stamp := by
  constructor
  · obtain ⟨s, hs, hpc, howner, hcleared⟩ : ∃ s, machine.Reachable s ∧
        s.pc heir = .recoverCas relocker.ownerToken 1 ∧ s.owner = relocker.ownerToken ∧
        (machine.step s (.next heir false none)).any (·.owner = 0) = true :=
      exists_reachable_of_exec crashRun rfl (by decide +kernel)
    obtain ⟨s', hstep, hzero⟩ := (Option.any_eq_true _ _).1 hcleared
    have hzero : s'.owner = 0 := of_decide_eq_true hzero
    refine ⟨s, s', hs, howner, hstep, hzero, ?_⟩
    refine (mutex_crash_robust hs).2.2.2.1 heir false none _ 1 s' hpc hstep ?_
    rw [hzero, howner]
    exact relocker.ownerToken_ne_zero.symm
  · obtain ⟨s, hs, hlive, hdead, hheld⟩ : ∃ s, machine.Reachable s ∧ heir.proc ∈ s.procs.live ∧
        s.held relocker = true ∧ s.held heir = true :=
      exists_reachable_of_exec (crashRun ++ List.replicate 8 (.next heir true none)) rfl
        (by decide +kernel)
    obtain ⟨hunique, howned, -⟩ := mutex_crash_robust hs
    exact ⟨s, hs, hdead, hheld, fun t ht h => hunique t heir ht hlive h hheld, howned heir hlive hheld⟩

/-- The dead thread stands under the gate, and so does the heir. -/
theorem gate_exclusive_crash : ∃ s, machine.Reachable s ∧ (s.pc relocker).inGate = true ∧
    (s.pc heir).inGate = true ∧ ∀ t, t.proc ∈ s.procs.live → (s.pc t).inGate = true → t = heir := by
  obtain ⟨s, hs, hlive, hdead, hin⟩ : ∃ s, machine.Reachable s ∧ heir.proc ∈ s.procs.live ∧
      (s.pc relocker).inGate = true ∧ (s.pc heir).inGate = true :=
    exists_reachable_of_exec crashRun rfl (by decide +kernel)
  exact ⟨s, hs, hdead, hin, fun t ht h => gate_exclusive hs ht hlive h hin⟩

/-! ### A custody released during the recursion check -/

/-- The thread that releases the custody. -/
def releaser : Thread := ⟨custodian, 2, by omega⟩

/-- The first lock, and a second one up to the two loads of its recursion check, between which the other
thread releases the mutex. -/
def releasedRun : List Action :=
  [.start custodian, .call relocker .lock] ++ List.replicate 7 (.next relocker true none) ++
    .call relocker .lock :: List.replicate 14 (.next relocker true none) ++
    .unlockOwned releaser relocker.ownerToken :: List.replicate 2 (.next relocker true none)

/-- The recursion error is raised while the calling thread no longer owns the mutex: another thread
of its process released it by `unlock_owned` after the check had loaded the owner word. -/
theorem recursion_raised_unowned : ∃ s, machine.Reachable s ∧ relocker.proc ∈ s.procs.live ∧
    s.pc relocker = .raised true ∧ s.owner = 0 ∧ s.holder = none :=
  exists_reachable_of_exec releasedRun rfl (by decide +kernel)

end Sintra.Ipc.Mutex
