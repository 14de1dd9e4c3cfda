import Sintra.Ipc.SpinlockInvariant

/-!
# What the spinlock guarantees
-/

namespace Sintra.Ipc.Spinlock

open Function State

/-! ### Holds along a run -/

section holds

variable {s s' : State} {t : Thread}

/-- How a move treats the hold in force: it goes on, it ends, or a new one begins. -/
theorem Move.hold_cases (h : Move s t s') :
    (s'.owner = s.owner ∧ s'.acquisitions = s.acquisitions) ∨
      (s'.owner = 0 ∧ s'.acquisitions = s.acquisitions) ∨
      ((s.owner = 0 ∨ ∃ w, s.pc t = .takeoverCas s.owner w) ∧
        s'.acquisitions = s.acquisitions + 1) := by
  cases h with
  | «local» h | oddMark h | bump h | reload h | takeoverMark h _ => exact .inl ⟨rfl, rfl⟩
  | zeroStore h => exact .inr (.inl ⟨rfl, rfl⟩)
  | acquire h h0 => exact .inr (.inr ⟨.inl h0, Nat.add_right_comm _ _ _⟩)
  | @takeover o w h ho => exact .inr (.inr ⟨.inr ⟨w, ho ▸ h⟩, rfl⟩)

/-- How a step of the system treats the hold in force. A new one begins when the lock is unowned
or on a takeover. -/
theorem step_hold_cases {a : Action} (h : s.step a = some s') :
    (s'.owner = s.owner ∧ s'.acquisitions = s.acquisitions) ∨
      (s'.owner = 0 ∧ s'.acquisitions = s.acquisitions) ∨
      ((s.owner = 0 ∨ ∃ t : Thread, t.1 ∈ s.procs.live ∧ ∃ w, s.pc t = .takeoverCas s.owner w) ∧
        s'.acquisitions = s.acquisitions + 1) := by
  cases a with
  | start p | exit p | lock t | unlock t =>
    simp only [State.step] at h
    split_ifs at h
    cases h
    exact .inl ⟨rfl, rfl⟩
  | next t b c =>
    simp only [State.step] at h
    split_ifs at h with ht
    rcases (move_of_next h).hold_cases with hc | hc | ⟨h0 | hw, hc⟩
    · exact .inl hc
    · exact .inr (.inl hc)
    · exact .inr (.inr ⟨.inl h0, hc⟩)
    · exact .inr (.inr ⟨.inr ⟨t, ht, hw⟩, hc⟩)

theorem acquisitions_le_of_step {a : Action} (h : machine.step s a = some s') :
    s.acquisitions ≤ s'.acquisitions := by
  rcases step_hold_cases h with ⟨-, hc⟩ | ⟨-, hc⟩ | ⟨-, hc⟩ <;> omega

/-- Without an acquisition the owner word keeps its value or is cleared for good. -/
theorem Steps.owner_of_acquisitions_eq (h : machine.Steps s s')
    (heq : s'.acquisitions = s.acquisitions) : s'.owner = s.owner ∨ s'.owner = 0 := by
  induction h with
  | refl => exact .inl rfl
  | @tail u v a hsu huv ih =>
    have hle : s.acquisitions ≤ u.acquisitions := hsu.mono fun _ _ _ => acquisitions_le_of_step
    rcases step_hold_cases huv with ⟨ho, hc⟩ | ⟨ho, -⟩ | ⟨-, hc⟩
    · rw [ho]
      exact ih (hc.symm.trans heq)
    · exact .inr ho
    · omega

theorem State.hold_eq_some {k : ℕ} : s.hold = some k ↔ s.owner ≠ 0 ∧ s.acquisitions = k := by
  unfold hold
  split_ifs with h0
  all_goals simp [h0]

/-- **A hold is an interval of the run**: if it is in force at both ends of a segment, it is in
force, under one owner, all along. -/
theorem hold_bracket {u v : State} {k : ℕ} (hsu : machine.Steps s u) (huv : machine.Steps u v)
    (hs : s.hold = some k) (hv : v.hold = some k) : u.hold = some k ∧ u.owner = s.owner := by
  rw [hold_eq_some] at hs hv
  have hmid : u.acquisitions = s.acquisitions :=
    Machine.Steps.bracket (fun _ _ _ => acquisitions_le_of_step) hsu huv (hv.2.trans hs.2.symm)
  have hlast : v.acquisitions = u.acquisitions := by rw [hmid, hv.2, hs.2]
  have hvu : v.owner = u.owner := (Steps.owner_of_acquisitions_eq huv hlast).resolve_right hv.1
  have hu0 : u.owner ≠ 0 := hvu ▸ hv.1
  have hus : u.owner = s.owner := (Steps.owner_of_acquisitions_eq hsu hmid).resolve_right hu0
  exact ⟨hold_eq_some.mpr ⟨hu0, hmid.trans hs.2⟩, hus⟩

end holds

/-! ### The guarantee -/

section guarantee

variable {s s' : State}

/-- An acquisition while the lock is owned takes it from an exited owner. -/
theorem Inv.exited_of_takeover (hs : Inv s) {a : Action} (h : s.step a = some s') (h0 : s.owner ≠ 0)
    (hacq : s'.acquisitions ≠ s.acquisitions) : s.procs.Exited s.owner := by
  rcases step_hold_cases h with ⟨-, hc⟩ | ⟨-, hc⟩ | ⟨h0' | ⟨t, ht, w, hpc⟩, -⟩
  · exact absurd hc hacq
  · exact absurd hc hacq
  · exact absurd h0' h0
  · have hl := hs.local_ok t ht
    rw [hpc] at hl
    exact hl.1

theorem Inv.generation_odd (hs : Inv s) {t : Thread} (hpc : s.pc t = .holding)
    (ht : t.1 ∈ s.procs.live ∨ s.owner = t.1.processInstance) : s.generation % 2 = 1 := by
  have ho : s.owner = t.1.processInstance := by
    rcases ht with ht | ho
    · exact hs.section_owner t ht (by rw [hpc]; rfl)
    · exact ho
  have hok := hs.section_ok t ho
  rw [hpc] at hok
  have hodd := hok.1
  rw [hs.generation_eq]
  omega

theorem Inv.generation_even (hs : Inv s) (h0 : s.owner = 0) : s.generation % 2 = 0 := by
  have heven := hs.unowned_even h0
  rw [hs.generation_eq]
  omega

/-- Without a wrap the end generations are the unwrapped ends, which are strictly ordered. -/
theorem Inv.ends_nodup (hs : Inv s) (hb : s.budget < 2 ^ 64) : s.ends.Nodup := by
  rw [hs.ends_eq]
  have hnodup : s.endMarks.Nodup := hs.ends_sorted.imp fun h => h.ne'
  refine hnodup.map_on fun a ha b hb' hab => ?_
  have hlt : ∀ m ∈ s.endMarks, m < 2 ^ 64 := fun m hm =>
    ((hs.ends_le m hm).trans hs.marks_le).trans_lt hb
  rwa [Nat.mod_eq_of_lt (hlt a ha), Nat.mod_eq_of_lt (hlt b hb')] at hab

theorem Inv.stalled_hold (hs : Inv s) (hb : s.budget < 2 ^ 64) {t : Thread}
    (ht : t.1 ∈ s.procs.live) {w : Witness} {h : ℕ} (hpc : s.pc t = .stalled w h) : h = w.hold := by
  have hl := hs.local_ok t ht
  rw [hpc] at hl
  exact hl (hs.marks_le.trans_lt hb)

/-- **The crash-robust spinlock.** In every reachable state:

* at most one live thread is between a successful lock (or takeover) and the matching unlock;
* a step that changes the hold of an owned lock takes it from an owner that has exited;
* the generation is odd while a thread that returned from `lock` has not begun `unlock` (it is
  alive, or it died and its hold is still in force);
* the generation is even while the lock is unowned;
* while `2 · locks + 2 · bumps + 3 · takeovers < 2^64`, no two holds ended with the same generation,
  and a waiter at the live-stall verdict saw the hold of its window's start again at the end, so
  that, holds being intervals of the run, this one hold was in force throughout. -/
theorem spinlock_crash_robust (hs : machine.Reachable s) :
    (∀ t t' : Thread, t.1 ∈ s.procs.live → t'.1 ∈ s.procs.live → (s.pc t).inSection = true →
      (s.pc t').inSection = true → t = t') ∧
    (∀ a s', machine.step s a = some s' → s.owner ≠ 0 →
      (s'.owner ≠ s.owner ∧ s'.owner ≠ 0 ∨ s'.acquisitions ≠ s.acquisitions) →
      s.procs.Exited s.owner) ∧
    (∀ t : Thread, s.pc t = .holding →
      (t.1 ∈ s.procs.live ∨ s.owner = t.1.processInstance) → s.generation % 2 = 1) ∧
    (s.owner = 0 → s.generation % 2 = 0) ∧
    (s.budget < 2 ^ 64 → s.ends.Nodup ∧
      ∀ (t : Thread) (w : Witness) (h : ℕ), t.1 ∈ s.procs.live → s.pc t = .stalled w h →
        h = w.hold) ∧
    (∀ u v : State, machine.Steps s u → machine.Steps u v → ∀ k, s.hold = some k →
      v.hold = some k → u.hold = some k ∧ u.owner = s.owner) := by
  have hinv := reachable_inv hs
  refine ⟨fun t t' ht ht' hin hin' => ?_, fun a s' hstep h0 hchange => ?_,
    fun t hpc ht => hinv.generation_odd hpc ht, hinv.generation_even,
    fun hb => ⟨hinv.ends_nodup hb, fun t w h ht hpc => hinv.stalled_hold hb ht hpc⟩,
    fun u v hsu huv k => hold_bracket hsu huv⟩
  · exact hinv.section_unique t t' hin hin' (hinv.section_owner t ht hin)
      (hinv.section_owner t' ht' hin')
  · refine hinv.exited_of_takeover hstep h0 ?_
    rcases hchange with ⟨hne, hne0⟩ | hacq
    · rcases step_hold_cases hstep with ⟨ho, -⟩ | ⟨ho, -⟩ | ⟨-, hc⟩
      · exact absurd ho hne
      · exact absurd ho hne0
      · omega
    · exact hacq

end guarantee

/-! ### A relay of dying holders -/

/-- The `k`-th process of the relay; its PID differs from its predecessor's. -/
def relayProcess (k : ℕ) : Incarnation where
  pid := 1 + k % 2 ^ 31
  stamp := k
  token := k / 2 ^ 31 % 2 ^ 32
  pid_pos := by omega
  pid_lt := by omega
  token_lt := by omega

theorem relayProcess_pid_succ (k : ℕ) : (relayProcess (k + 1)).pid ≠ (relayProcess k).pid := by
  simp only [relayProcess]
  omega

theorem relayProcess_stamp (k : ℕ) : (relayProcess k).stamp = k := rfl

theorem relayProcess_ne {j k : ℕ} (h : j ≠ k) : relayProcess j ≠ relayProcess k := fun heq =>
  h (congrArg Incarnation.stamp heq)

theorem relayProcess_instance_ne {j k : ℕ} (hk : k < 2 ^ 63) (hjk : j < k) :
    (relayProcess j).processInstance ≠ (relayProcess k).processInstance := by
  intro h
  have hpid := congrArg processInstancePid h
  rw [processInstancePid_processInstance, processInstancePid_processInstance] at hpid
  rw [Incarnation.processInstance_eq, Incarnation.processInstance_eq] at h
  simp only [relayProcess] at h hpid
  omega

/-- The first process of the relay, holding the lock it found free. -/
def relayStart : State where
  procs := ProcessTable.empty.start (relayProcess 0) (by decide)
  owner := (relayProcess 0).processInstance
  generation := 1
  pc := update (fun _ => .idle) (relayProcess 0, 0) .holding
  marks := 1
  locks := 1
  bumps := 0
  takeovers := 0
  endMarks := []
  ends := []

/-- Thread `t` has taken the lock over from an exited holder. -/
def State.takenOver (s : State) (t : Thread) : State where
  procs := s.procs
  owner := t.1.processInstance
  generation := (s.generation + 4) % 2 ^ 64
  pc := update s.pc t .holding
  marks := s.marks + 4
  locks := s.locks
  bumps := s.bumps + 1
  takeovers := s.takeovers + 1
  endMarks := (s.marks + 2) :: s.endMarks
  ends := (s.generation + 2) % 2 ^ 64 :: s.ends

/-- The lock is held by the `n`-th process of the relay, all earlier ones having died in turn while
they held it. -/
structure Relay (n : ℕ) (s : State) : Prop where
  live : ∀ p, p ∈ s.procs.live ↔ p = relayProcess n
  born : ∀ p ∈ s.procs.born, ∃ k ≤ n, p = relayProcess k
  owner : s.owner = (relayProcess n).processInstance
  generation : s.generation = (4 * n + 1) % 2 ^ 64
  idle : ∀ k, n < k → s.pc (relayProcess k, 0) = .idle
  holding : s.pc (relayProcess n, 0) = .holding
  locks : s.locks = 1
  bumps : s.bumps = n
  takeovers : s.takeovers = n
  ends : s.ends = (List.range n).reverse.map fun k => (4 * k + 3) % 2 ^ 64

theorem reachable_relayStart : machine.Reachable relayStart := by
  have hrun : machine.exec State.initial [.start (relayProcess 0), .lock (relayProcess 0, 0),
      .next (relayProcess 0, 0) true true, .next (relayProcess 0, 0) true true,
      .next (relayProcess 0, 0) true true] = some relayStart := by
    have hp : ProcessTable.empty.Startable (relayProcess 0) := by decide
    simp [Machine.exec, machine, State.step, State.next, State.initial, hp, State.addGeneration,
      State.goto, relayStart]
  exact Machine.reachable_of_exec rfl hrun

/-- A takeover from an exited holder, run from the call of `lock` to its return. -/
theorem steps_takenOver {s : State} {t : Thread} (ht : t.1 ∈ s.procs.live) (hidle : s.pc t = .idle)
    (h0 : s.owner ≠ 0) (hodd : s.generation % 2 = 1)
    (hdead : s.procs.MayAnswerAlive (processInstancePid s.owner) false)
    (hexit : processInstanceHasExited s.owner t.1.processInstance false = true) :
    machine.Steps s (s.takenOver t) := by
  have hrun : machine.exec s [.lock t, .next t true true, .next t true true, .next t false true,
      .next t true true, .next t true true, .next t true true, .next t true true] =
      some (s.takenOver t) := by
    simp [Machine.exec, machine, State.step, State.next, State.addGeneration, State.endHold,
      State.goto, State.takenOver, ht, hidle, h0, hdead, hexit, hodd]
  exact Machine.steps_of_exec hrun

theorem relay_zero : Relay 0 relayStart where
  live := by simp [relayStart, ProcessTable.empty]
  born := by simp [relayStart, ProcessTable.empty]
  owner := rfl
  generation := rfl
  idle := fun k hk => by simp [relayStart, relayProcess_ne hk.ne']
  holding := by simp [relayStart]
  locks := rfl
  bumps := rfl
  takeovers := rfl
  ends := rfl

/-- The holder dies, its successor starts and takes the lock over. -/
theorem Relay.succ {n : ℕ} {s : State} (h : Relay n s) (hn : n + 1 < 2 ^ 63) :
    ∃ s', machine.Steps s s' ∧ Relay (n + 1) s' := by
  have hstart : (s.procs.exit (relayProcess n)).Startable (relayProcess (n + 1)) := by
    refine ⟨fun q hq => ?_, fun q hq => ?_⟩
    · rw [ProcessTable.mem_live_exit, h.live] at hq
      exact absurd hq.2 hq.1
    · obtain ⟨k, hk, rfl⟩ := h.born q hq
      refine ⟨relayProcess_instance_ne hn (by omega), .inr ?_⟩
      rw [relayProcess_stamp, relayProcess_stamp]
      omega
  let u : State := { s with procs := (s.procs.exit (relayProcess n)).start _ hstart }
  have hlive : ∀ p, p ∈ u.procs.live ↔ p = relayProcess (n + 1) := by
    intro p
    change p ∈ ((s.procs.exit (relayProcess n)).start _ hstart).live ↔ _
    rw [ProcessTable.mem_live_start, ProcessTable.mem_live_exit, h.live]
    tauto
  have hpid : processInstancePid u.owner = (relayProcess n).pid := by
    change processInstancePid s.owner = _
    rw [h.owner, processInstancePid_processInstance]
  have hrun : machine.exec s [.exit (relayProcess n), .start (relayProcess (n + 1))] = some u := by
    simp [Machine.exec, machine, State.step, h.live, hstart, u]
  have htake : machine.Steps u (u.takenOver (relayProcess (n + 1), 0)) := by
    refine steps_takenOver ((hlive _).mpr rfl) (h.idle _ (Nat.lt_succ_self n)) ?_ ?_ ?_ ?_
    · rw [show u.owner = _ from h.owner]
      exact Incarnation.processInstance_ne_zero _
    · rw [show u.generation = _ from h.generation]
      omega
    · intro _ q hq
      rw [hpid, (hlive q).mp hq]
      exact relayProcess_pid_succ n
    · rw [processInstanceHasExited, hpid, processInstancePid_processInstance,
        if_neg (relayProcess_pid_succ n).symm]
      rfl
  refine ⟨_, (Machine.steps_of_exec hrun).trans htake, ?_⟩
  exact
    { live := hlive
      born := fun p hp => by
        rcases (ProcessTable.mem_born_start hstart).mp hp with rfl | hp
        · exact ⟨n + 1, le_rfl, rfl⟩
        · obtain ⟨k, hk, rfl⟩ := h.born p hp
          exact ⟨k, by omega, rfl⟩
      owner := rfl
      generation := by
        change (s.generation + 4) % 2 ^ 64 = _
        rw [h.generation]
        omega
      idle := fun k hk => by
        have hne : ((relayProcess k, 0) : Thread) ≠ (relayProcess (n + 1), 0) := fun h =>
          relayProcess_ne hk.ne' (congrArg Prod.fst h)
        exact (update_of_ne hne _ _).trans (h.idle k (by omega))
      holding := update_self _ _ _
      locks := h.locks
      bumps := congrArg (· + 1) h.bumps
      takeovers := congrArg (· + 1) h.takeovers
      ends := by
        change (s.generation + 2) % 2 ^ 64 :: s.ends = _
        rw [h.ends, h.generation, List.range_succ, List.reverse_append]
        simp only [List.reverse_singleton, List.singleton_append, List.map_cons]
        congr 1
        omega }

/-- The relay can be run to any length below `2^63`. -/
theorem exists_relay {n : ℕ} (hn : n < 2 ^ 63) : ∃ s, machine.Reachable s ∧ Relay n s := by
  induction n with
  | zero => exact ⟨relayStart, reachable_relayStart, relay_zero⟩
  | succ n ih =>
    obtain ⟨s, hs, hr⟩ := ih (by omega)
    obtain ⟨s', hsteps, hr'⟩ := hr.succ hn
    exact ⟨s', hs.steps hsteps, hr'⟩

/-- Fewer than `2^63` acquisitions do not keep the generations of ended holds apart: after
`2^62 + 1` takeovers the first and the last hold have ended with the same generation. -/
theorem relay_ends_not_nodup :
    ∃ s, machine.Reachable s ∧ s.acquisitions < 2 ^ 63 ∧ ¬ s.ends.Nodup := by
  have hlt : 2 ^ 62 + 1 < 2 ^ 63 := by norm_num
  obtain ⟨s, hs, hr⟩ := exists_relay hlt
  refine ⟨s, hs, ?_, fun hnodup => ?_⟩
  · rw [acquisitions, hr.locks, hr.takeovers]
    norm_num
  · rw [hr.ends] at hnodup
    have hinj := List.inj_on_of_nodup_map hnodup
    have hmem : ∀ k, k < 2 ^ 62 + 1 → k ∈ (List.range (2 ^ 62 + 1)).reverse := fun k hk =>
      List.mem_reverse.mpr (List.mem_range.mpr hk)
    have heq : (0 : ℕ) = 2 ^ 62 :=
      hinj (hmem 0 (by norm_num)) (hmem (2 ^ 62) (by norm_num)) (by norm_num)
    norm_num at heq

/-- After one takeover: a live holder, an odd generation and distinct ends. -/
theorem spinlock_crash_robust_relay : ∃ s, machine.Reachable s ∧ s.takeovers = 1 ∧
    s.budget < 2 ^ 64 ∧ s.generation % 2 = 1 ∧ s.ends.Nodup := by
  obtain ⟨s, hs, hr⟩ := exists_relay (n := 1) (by norm_num)
  have hb : s.budget < 2 ^ 64 := by
    rw [budget, hr.locks, hr.bumps, hr.takeovers]
    norm_num
  have hsafe := spinlock_crash_robust hs
  exact ⟨s, hs, hr.takeovers, hb,
    hsafe.2.2.1 (relayProcess 1, 0) hr.holding (.inl ((hr.live _).mpr rfl)),
    (hsafe.2.2.2.2.1 hb).1⟩

end Sintra.Ipc.Spinlock
