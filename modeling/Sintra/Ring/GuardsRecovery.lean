import Sintra.Ring.GuardsAccounting

/-!
# The recovery of leaked counts

A reader that dies between adding a count and publishing its guard leaks the count. The writer and
`try_rollback_unpaired_read_access` recover it: with the lock they load `read_access`, look at every
slot for a guard or a live pending update on the octile, and when there is none replace the word by a
compare-and-swap. An equal word does not show that nothing happened since the load.
-/

namespace Sintra.Ring.Guards

open Function

open Slots (Agent)

variable {n : ℕ}

/-! ### What a recovery has looked at -/

namespace Pc

/-- The number of slots a recovery of the octile has found without a guard or a live pending update. -/
def cleared (o : Octile) : Pc n → ℕ
  | .count (.confirmed o' _ _) k sum | .probe (.confirmed o' _ _) k sum =>
    if o' = o ∧ sum = 0 then k else 0
  | .count (.leaked o' _ _) _ _ | .probe (.leaked o' _ _) _ _ | .confirm o' _ _
  | .count (.last o' _ _ _) _ _ | .probe (.last o' _ _ _) _ _ | .confirmSwap o' _ _ _
  | .staleSwap o' _ _ => if o' = o then n else 0
  | .count (.rollbackAgain _ o' _) k sum | .probe (.rollbackAgain _ o' _) k sum =>
    if o' = o ∧ sum = 0 then k else 0
  | .rollbackSwap _ o' _ => if o' = o then n else 0
  | _ => 0

/-- A recovery has found nothing so far but a pending update, and is to probe its owner. -/
def probing (o : Octile) : Pc n → Option (Fin n)
  | .probe (.confirmed o' _ _) k sum | .probe (.rollbackAgain _ o' _) k sum =>
    if o' = o ∧ sum = 0 then some k else none
  | _ => none

/-- A reader is about to publish the octile as pending in its slot. -/
def attempts (i : Fin n) (o : Octile) : Pc n → Bool
  | .acquire j o' _ => j = i && o' = o
  | _ => false

theorem inside_of_cleared {c : Pc n} {o : Octile} {k : ℕ} (h : k < c.cleared o) :
    c.inside = true := by
  cases c with
  | count q j sum | probe q j sum => cases q <;> first | rfl | simp [cleared] at h
  | _ => first | rfl | simp [cleared] at h

theorem inside_of_probing {c : Pc n} {o : Octile} {k : Fin n} (h : c.probing o = some k) :
    c.inside = true := by
  cases c with
  | probe q j sum => cases q <;> first | rfl | cases h
  | _ => cases h

end Pc

/-- A recovery is not disturbed: nobody publishes its octile as pending in a slot it has looked at, and
nobody who has published a guard on it dies between the look at the slot and the probe of the owner. -/
def Calm (s : State n) : Action → Prop
  | .advance b _ => ∀ i o, (s.pc b).attempts i o → ∀ a ∈ s.holder, s.Live a →
      (s.pc a).cleared o ≤ i
  | .exit p => ∀ a ∈ s.holder, s.Live a → ∀ o k, (s.pc a).probing o = some k →
      s.owner k = some p → (s.slots k).guard ≠ some o
  | .call _ _ => True

/-- What a recovery has found stays true. -/
structure Window (s : State n) : Prop where
  cleared : ∀ a, s.Live a → ∀ o (i : Fin n), (i : ℕ) < (s.pc a).cleared o →
    (s.slots i).guard ≠ some o ∧
      ∀ b, s.Live b → (s.pc b).slot = some i → (s.pc b).pending ≠ some o
  probing : ∀ a, s.Live a → ∀ o k, (s.pc a).probing o = some k → s.ownerExited k = true →
    (s.slots k).guard ≠ some o

theorem window_initial : Window (State.initial n) where
  cleared := by
    intro a _ o i h
    simp [State.initial, Pc.cleared] at h
  probing := by
    intro a _ o k h
    cases h

section

variable {s : State n} {a b : Agent} {e : Effect n} {c : Pc n}

/-! ### Steps of others -/

/-- Where the octiles in a slot come from, in a step without the lock: a guard was a guard or pending
before; what is pending was pending or a guard before, or is the octile of a new attempt. -/
structure Sources (s : State n) (b : Agent) (e : Effect n) (c : Pc n) : Prop where
  owner : (s.apply b e).owner = s.owner
  guard : ∀ i o, ((s.apply b e).slots i).guard = some o → (s.slots i).guard = some o ∨
    ((s.pc b).slot = some i ∧ (s.pc b).pending = some o)
  pending : ∀ i o, c.slot = some i → c.pending = some o → (s.pc b).slot = some i ∧
    ((s.pc b).pending = some o ∨ (s.slots i).guard = some o ∨
      ∃ allowEvicted, s.pc b = .acquire i o allowEvicted)

/-- A step that writes no word and keeps what is pending. -/
theorem Sources.quiet (howner : (s.apply b e).owner = s.owner)
    (hslots : (s.apply b e).slots = s.slots)
    (hpending : ∀ i o, c.slot = some i → c.pending = some o →
      (s.pc b).slot = some i ∧ (s.pc b).pending = some o) : Sources s b e c where
  owner := howner
  guard i o h := .inl (by rwa [hslots] at h)
  pending i o hi ho := ⟨(hpending i o hi ho).1, .inl (hpending i o hi ho).2⟩

theorem Sources.of_clear (howner : (s.apply b e).owner = s.owner)
    (hslots : (s.apply b e).slots = s.slots) (hpending : c.pending = none) : Sources s b e c :=
  .quiet howner hslots fun i o _ ho => by simp [hpending] at ho

variable {q : Query n} {ch : Choice} {k : Fin n} {o : Octile} {i : Fin n} {sum : ℕ}

/-- A reader writes its slot. -/
theorem Sources.word {w : ReaderState} (hi : (s.pc b).slot = some i) (hslot : c.slot = some i)
    (hguard : ∀ o, w.guard = some o → (s.slots i).guard = some o ∨ (s.pc b).pending = some o)
    (hpending : ∀ o, c.pending = some o → (s.pc b).pending = some o ∨
      (s.slots i).guard = some o ∨ ∃ allowEvicted, s.pc b = .acquire i o allowEvicted) :
    Sources s b (.word i w) c where
  owner := rfl
  guard j o h := by
    have hword : (update s.slots i w j).guard = some o := h
    obtain rfl | hji := eq_or_ne j i
    · rw [update_self] at hword
      exact (hguard o hword).imp_right fun hp => ⟨hi, hp⟩
    · rw [update_of_ne hji] at hword
      exact .inl hword
  pending j o hj ho := by
    obtain rfl : i = j := Option.mem_unique hslot hj
    exact ⟨hi, hpending o ho⟩

theorem Entry.pending_pc (x : Entry n) : x.pc.pending = none := by
  cases x <;> rfl

theorem sources (hs : Inv s) (hb : s.Live b) (hout : (s.pc b).inside = false)
    (h : s.next b ch = some (e, c)) : Sources s b e c := by
  unfold State.next at h
  cases hpc : s.pc b
  all_goals simp only [hpc] at h
  case idle | owns | writer => cases h
  case wait x =>
    split_ifs at h
    cases h
    exact .of_clear rfl rfl x.pending_pc
  case acquire i o allowEvicted =>
    simp only [State.acquireStep] at h
    split_ifs at h <;> cases h
    any_goals exact .of_clear rfl rfl rfl
    · refine .word (by rw [hpc]; rfl) rfl (fun o' ho' => .inl ho') ?_
      intro o' ho'
      obtain rfl : o = o' := Option.some.inj ho'
      exact .inr (.inr ⟨allowEvicted, hpc⟩)
  case acquirePending i o previous | acquireMoved i o p | released i o =>
    cases h
    refine .quiet rfl rfl fun j o' hj ho' => ?_
    rw [hpc]
    exact ⟨hj, ho'⟩
  case acquireAdded i o previous =>
    have howned := hs.owned b i hb (by rw [hpc]; rfl)
    rw [hpc] at howned
    cases h
    have hslot : (Pc.attached i o previous).slot = some i := by cases previous <;> rfl
    have hpending : (Pc.attached i o previous).pending = previous := by cases previous <;> rfl
    refine .word (by rw [hpc]; rfl) hslot ?_ ?_
    · intro o' ho'
      rw [hpc]
      exact .inr ho'
    · intro o' ho'
      rw [hpending, ← howned.guard.2] at ho'
      exact .inr (.inl ho')
  case release i =>
    simp only [State.releaseStep] at h
    split_ifs at h with hstop hok <;> cases h
    any_goals exact .of_clear rfl rfl rfl
    · simp only [Bool.and_eq_true] at hok
      refine .word (by rw [hpc]; rfl) rfl (by rintro o ⟨⟩) ?_
      intro o ho
      exact .inr (.inl ((ReaderState.guard_of_present hok.1.2).trans ho))
  case settle i o r | copying i o =>
    cases h
    exact .word (by rw [hpc]; rfl) rfl (fun o' ho' => .inl ho') (by rintro o' ⟨⟩)
  case copy i =>
    simp only [State.copyStep] at h
    split_ifs at h <;> cases h
    any_goals exact .of_clear rfl rfl rfl
    · exact .word (by rw [hpc]; rfl) rfl (fun o' ho' => .inl ho') (by rintro o' ⟨⟩)
  case count q k sum =>
    cases q with
    | blocking o published =>
      simp only [State.countStep, Query.answer] at h
      split_ifs at h <;> cases h <;> exact .of_clear rfl rfl rfl
    | _ => simp [hpc, Pc.inside, Query.inside] at hout
  case probe q k sum =>
    cases q with
    | blocking o published =>
      split_ifs at h <;> cases h <;> exact .of_clear rfl rfl rfl
    | _ => simp [hpc, Pc.inside, Query.inside] at hout
  case closing =>
    cases h
    exact .of_clear rfl rfl rfl
  case check o | reclaim o published => split_ifs at h <;> cases h <;> exact .of_clear rfl rfl rfl
  case blocked o published | recheck o published =>
    split_ifs at h <;> cases h
    · cases published <;> exact .of_clear rfl rfl rfl
    · exact .of_clear rfl rfl rfl
  all_goals simp [hpc, Pc.inside] at hout

/-! ### Steps of the recovery itself -/

/-- The control point is not part of a recovery. -/
def Pc.Apart (c : Pc n) : Prop := ∀ o, c.cleared o = 0 ∧ c.probing o = none

theorem Entry.apart_pc (x : Entry n) : x.pc.Apart := by
  cases x <;> exact fun _ => ⟨rfl, rfl⟩

theorem Purpose.apart_next (p : Purpose) (i : Fin n) : (p.next i).Apart := by
  cases p <;> exact fun _ => ⟨rfl, rfl⟩

theorem Pc.apart_passFrom (o : Octile) (k : ℕ) (published : Bool) :
    (Pc.passFrom (n := n) o k published).Apart := by
  unfold Pc.passFrom
  split_ifs <;> exact fun _ => ⟨rfl, rfl⟩

theorem Pc.apart_returned (published : Bool) : (Pc.returned (n := n) published).Apart := by
  cases published <;> exact fun _ => ⟨rfl, rfl⟩

theorem Exit.apart_pc (x : Exit n) : x.pc.Apart := by
  cases x with
  | scavenged d =>
    cases d with
    | pass o published => exact Pc.apart_passFrom o 0 published
    | _ => exact fun _ => ⟨rfl, rfl⟩
  | cancelled d => cases d <;> exact fun _ => ⟨rfl, rfl⟩
  | pass o k published => exact Pc.apart_passFrom o k published
  | throw published => cases published <;> exact fun _ => ⟨rfl, rfl⟩
  | _ => exact fun _ => ⟨rfl, rfl⟩

/-- What a step of an agent adds to what its recovery has found. -/
structure Finds (s : State n) (a : Agent) (e : Effect n) (c : Pc n) : Prop where
  cleared : ∀ o (i : Fin n), (i : ℕ) < c.cleared o → e = .skip ∧
    ((i : ℕ) < (s.pc a).cleared o ∨
      ((s.slots i).guard ≠ some o ∧ (s.slots i).pending ≠ some o) ∨
      ((s.pc a).probing o = some i ∧ s.ownerExited i = true))
  probing : ∀ o k, c.probing o = some k → e = .skip ∧ (s.slots k).guard ≠ some o

theorem Finds.of_apart (h : c.Apart) : Finds s a e c where
  cleared o i hi := by simp [(h o).1] at hi
  probing o k hk := by simp [(h o).2] at hk

/-- A step that goes on with what was found. -/
theorem Finds.keep (hcleared : ∀ o, c.cleared o ≤ (s.pc a).cleared o)
    (hprobing : ∀ o, c.probing o = none) : Finds s a .skip c where
  cleared o i hi := ⟨rfl, .inl (hi.trans_le (hcleared o))⟩
  probing o k hk := by simp [hprobing o] at hk

/-- The scan whose result a recovery relies on. -/
def Query.decisive : Query n → Bool
  | .confirmed _ _ _ => true
  | .rollbackAgain _ _ _ => true
  | _ => false

theorem Pc.cleared_decisive (hq : q.decisive = true) (o : Octile) :
    (∀ k sum, (Pc.count q k sum).cleared o = if q.octile = o ∧ sum = 0 then k else 0) ∧
    (∀ (k : Fin n) sum, (Pc.probe q k sum).cleared o = if q.octile = o ∧ sum = 0 then (k : ℕ) else 0) ∧
    (∀ k sum, (Pc.count q k sum).probing o = none) ∧
    ∀ (k : Fin n) sum, (Pc.probe q k sum).probing o =
      if q.octile = o ∧ sum = 0 then some k else none := by
  cases q <;> first | exact ⟨fun _ _ => rfl, fun _ _ => rfl, fun _ _ => rfl, fun _ _ => rfl⟩ | cases hq

/-- In the other scans nothing is found that was not found before. -/
theorem Pc.cleared_not_decisive (hq : q.decisive = false) (o : Octile) :
    ∃ m, (∀ k sum, (Pc.count q k sum).cleared o = m) ∧
      (∀ (k : Fin n) sum, (Pc.probe q k sum).cleared o = m) ∧
      (∀ k sum, (Pc.count q k sum).probing o = none) ∧
      ∀ (k : Fin n) sum, (Pc.probe q k sum).probing o = none := by
  cases q with
  | confirmed | rollbackAgain => cases hq
  | _ => exact ⟨_, fun _ _ => rfl, fun _ _ => rfl, fun _ _ => rfl, fun _ _ => rfl⟩

/-- What a look at one slot finds. -/
theorem countStep_cases (hword : WordOk (s.slots k)) (h : s.countStep q k sum = (e, c)) :
    e = .skip ∧
      ((∃ sum', c = .count q (k + 1) sum' ∧ (sum' = 0 → sum = 0 ∧
        (s.slots k).guard ≠ some q.octile ∧ (s.slots k).pending ≠ some q.octile)) ∨
      ∃ sum', c = .probe q k sum' ∧ (sum' = 0 → sum = 0 ∧ (s.slots k).guard ≠ some q.octile)) := by
  simp only [State.countStep] at h
  split_ifs at h with hinactive hpending hguard hguard
  all_goals obtain ⟨rfl, rfl⟩ := Prod.mk.inj h
  · obtain ⟨hguard, hpending⟩ := hword hinactive
    exact ⟨rfl, .inl ⟨sum, rfl, fun hsum => ⟨hsum, by simp [hguard], by simp [hpending]⟩⟩⟩
  · exact ⟨rfl, .inr ⟨sum + 1, rfl, by rintro ⟨⟩⟩⟩
  · exact ⟨rfl, .inr ⟨sum, rfl, fun hsum => ⟨hsum, hguard⟩⟩⟩
  · exact ⟨rfl, .inl ⟨sum + 1, rfl, by rintro ⟨⟩⟩⟩
  · exact ⟨rfl, .inl ⟨sum, rfl, fun hsum => ⟨hsum, hguard, hpending⟩⟩⟩

/-- A scan goes on from slot `k` to the next. -/
theorem finds_next (hq : q.decisive = true) {sum sum' : ℕ}
    (hpc : s.pc a = .count q k sum ∨ s.pc a = .probe q k sum) (hfound : sum' = 0 → sum = 0 ∧
      (((s.slots k).guard ≠ some q.octile ∧ (s.slots k).pending ≠ some q.octile) ∨
      ((s.pc a).probing q.octile = some k ∧ s.ownerExited k = true))) :
    Finds s a .skip (.count q (k + 1) sum') where
  cleared o i hi := by
    obtain ⟨hcount, hprobe, -, -⟩ := Pc.cleared_decisive hq o
    rw [hcount] at hi
    split_ifs at hi with hcond
    · obtain ⟨hsum, hnew⟩ := hfound hcond.2
      refine ⟨rfl, ?_⟩
      by_cases hik : (i : ℕ) < k
      · refine .inl ?_
        obtain hpc | hpc := hpc
        · rw [hpc, hcount, if_pos ⟨hcond.1, hsum⟩]
          exact hik
        · rw [hpc, hprobe, if_pos ⟨hcond.1, hsum⟩]
          exact hik
      · obtain rfl : i = k := Fin.ext (by omega)
        rw [← hcond.1]
        exact .inr hnew
    · omega
  probing o j hj := by
    obtain ⟨-, -, hcount, -⟩ := Pc.cleared_decisive hq o
    cases hj

/-- In a scan that is not decisive every step keeps what was found. -/
theorem finds_not_decisive (hq : q.decisive = false)
    (h₀ : (∃ k sum, s.pc a = .count q k sum) ∨ ∃ k sum, s.pc a = .probe q k sum)
    (h : (∃ k sum, c = .count q k sum) ∨ ∃ k sum, c = .probe q k sum) : Finds s a .skip c := by
  refine .keep (fun o => le_of_eq ?_) (fun o => ?_)
  · obtain ⟨m, hcount, hprobe, -, -⟩ := Pc.cleared_not_decisive hq o
    have hm : ∀ d : Pc n, ((∃ k sum, d = .count q k sum) ∨ ∃ k sum, d = .probe q k sum) →
        d.cleared o = m := by
      rintro d (⟨k, sum, rfl⟩ | ⟨k, sum, rfl⟩)
      · exact hcount k sum
      · exact hprobe k sum
    rw [hm c h, hm _ h₀]
  · obtain ⟨m, -, -, hcount, hprobe⟩ := Pc.cleared_not_decisive hq o
    obtain ⟨k, sum, rfl⟩ | ⟨k, sum, rfl⟩ := h
    · exact hcount k sum
    · exact hprobe k sum

theorem finds_countStep (hs : Inv s) (hpc : s.pc a = .count q k sum)
    (h : s.countStep q k sum = (e, c)) : Finds s a e c := by
  obtain ⟨rfl, ⟨sum', rfl, hfound⟩ | ⟨sum', rfl, hfound⟩⟩ := countStep_cases (hs.word k) h
  · by_cases hq : q.decisive = true
    · exact finds_next hq (.inl hpc) fun hsum => ⟨(hfound hsum).1, .inl (hfound hsum).2⟩
    · exact finds_not_decisive (by simpa using hq) (.inl ⟨_, _, hpc⟩) (.inl ⟨_, _, rfl⟩)
  · by_cases hq : q.decisive = true
    · constructor
      · intro o i hi
        obtain ⟨hcount, hprobe, -, -⟩ := Pc.cleared_decisive hq o
        rw [hprobe] at hi
        split_ifs at hi with hcond
        · refine ⟨rfl, .inl ?_⟩
          rw [hpc, hcount, if_pos ⟨hcond.1, (hfound hcond.2).1⟩]
          exact hi
        · omega
      · intro o j hj
        obtain ⟨-, -, -, hprobe⟩ := Pc.cleared_decisive hq o
        rw [hprobe] at hj
        split_ifs at hj with hcond
        obtain rfl : k = j := Option.some.inj hj
        rw [← hcond.1]
        exact ⟨rfl, (hfound hcond.2).2⟩
    · exact finds_not_decisive (by simpa using hq) (.inl ⟨_, _, hpc⟩) (.inr ⟨_, _, rfl⟩)

/-- The end of a scan. -/
theorem finds_answer {k sum : ℕ} (hk : ¬k < n) (hpc : s.pc a = .count q k sum) :
    Finds s a .skip (q.answer sum) := by
  cases q
  all_goals simp only [Query.answer]
  case blocking o published | rollback i o => split_ifs <;> exact .of_apart fun _ => ⟨rfl, rfl⟩
  case confirmed o access published =>
    split_ifs with hsum
    · refine .keep (fun o' => ?_) (fun _ => rfl)
      rw [hpc]
      simp only [Pc.cleared, hsum, and_true]
      split_ifs <;> omega
    · exact .of_apart fun _ => ⟨rfl, rfl⟩
    · exact .of_apart fun _ => ⟨rfl, rfl⟩
  case leaked o access published | last o access confirm published =>
    split_ifs
    all_goals exact .keep (fun o' => by rw [hpc]; exact le_rfl) (fun _ => rfl)
  case rollbackAgain i o access =>
    split_ifs with hsum
    · refine .keep (fun o' => ?_) (fun _ => rfl)
      rw [hpc]
      simp only [Pc.cleared, hsum, and_true]
      split_ifs <;> omega
    · exact .of_apart fun _ => ⟨rfl, rfl⟩
  case unpaired i o access p =>
    split_ifs
    · exact .of_apart (p.apart_next i)
    · exact .of_apart fun _ => ⟨rfl, rfl⟩

theorem finds_probe (hpc : s.pc a = .probe q k sum) {sum' : ℕ}
    (hfound : sum' = 0 → sum = 0 ∧ s.ownerExited k = true) :
    Finds s a .skip (.count q (k + 1) sum') := by
  by_cases hq : q.decisive = true
  · refine finds_next hq (.inr hpc) fun hsum => ⟨(hfound hsum).1, .inr ⟨?_, (hfound hsum).2⟩⟩
    obtain ⟨-, -, -, hprobe⟩ := Pc.cleared_decisive hq q.octile
    rw [hpc, hprobe, if_pos ⟨rfl, (hfound hsum).1⟩]
  · exact finds_not_decisive (by simpa using hq) (.inr ⟨_, _, hpc⟩) (.inl ⟨_, _, rfl⟩)

theorem finds (hs : Inv s) (h : s.next a ch = some (e, c)) : Finds s a e c := by
  unfold State.next at h
  cases hpc : s.pc a
  all_goals simp only [hpc, State.acquireStep, State.releaseStep, State.copyStep, State.clearPendingStep,
    State.scavengeStep, State.eligibleStep, State.evictStep] at h
  case idle | owns | writer => cases h
  case wait x =>
    split_ifs at h
    cases h
    exact .of_apart x.apart_pc
  case leave x =>
    cases h
    exact .of_apart x.apart_pc
  case acquireAdded i o previous =>
    cases h
    cases previous <;> exact .of_apart fun _ => ⟨rfl, rfl⟩
  case clearPending i guard mode p =>
    cases guard with
    | none =>
      cases h
      exact .of_apart (p.apart_next i)
    | some o =>
      cases mode <;> cases h
      · exact .of_apart (p.apart_next i)
      · exact .of_apart fun _ => ⟨rfl, rfl⟩
      · exact .of_apart fun _ => ⟨rfl, rfl⟩
  case clearCount i o p =>
    cases h
    exact .of_apart (p.apart_next i)
  case unpaired i o p | unpairedSwap i o access p =>
    split_ifs at h <;> cases h
    · exact .of_apart (p.apart_next i)
    · exact .of_apart fun _ => ⟨rfl, rfl⟩
  case count q k sum =>
    split_ifs at h with hk
    · exact finds_countStep hs hpc (Option.some.inj h)
    · cases h
      exact finds_answer hk hpc
  case probe q k sum =>
    split_ifs at h with hdead hexited
    · cases h
      exact finds_probe hpc fun hsum => ⟨hsum, hexited⟩
    · cases h
      exact finds_probe hpc (by rintro ⟨⟩)
  case recover o published =>
    cases h
    refine .keep (fun o' => ?_) (fun _ => rfl)
    simp [Pc.cleared]
  case rollbackAgain i o =>
    split_ifs at h <;> cases h
    · exact .of_apart fun _ => ⟨rfl, rfl⟩
    · refine .keep (fun o' => ?_) (fun _ => rfl)
      simp [Pc.cleared]
  case confirm o access published =>
    split_ifs at h <;> cases h
    all_goals exact .keep (fun o' => by rw [hpc]; exact le_rfl) (fun _ => rfl)
  case confirmSwap o access confirm published =>
    split_ifs at h <;> cases h
    · exact .of_apart fun _ => ⟨rfl, rfl⟩
    · exact .keep (fun o' => by rw [hpc]; exact le_rfl) (fun _ => rfl)
  case blocked o published | recheck o published =>
    split_ifs at h <;> cases h
    · exact .of_apart (Pc.apart_returned published)
    · exact .of_apart fun _ => ⟨rfl, rfl⟩
  all_goals
    first | split_ifs at h | skip
    all_goals
      cases h
      exact .of_apart fun _ => ⟨rfl, rfl⟩

/-! ### What was found stays true -/

theorem Pc.pending_of_cleared {k : ℕ} (h : k < c.cleared o) : c.pending = none := by
  cases c <;> first | rfl | simp [Pc.cleared] at h

/-- The reader of a slot whose owner is dead is not live. -/
theorem Inv.not_live_of_exited (hs : Inv s) (hb : s.Live b) (hout : (s.pc b).inside = false)
    (hi : (s.pc b).slot = some i) : s.ownerExited i = false := by
  obtain howner | hunowned := (hs.owned b i hb hi).owner
  · unfold State.Live at hb
    simpa [State.ownerExited, howner] using hb
  · cases hpc : s.pc b <;> simp [hpc, Pc.unowned, Pc.inside] at hunowned hout

theorem Window.own (hw : Window s) (hs : Inv s) (ha : s.Live a) (hfinds : Finds s a e c)
    (hi : (i : ℕ) < c.cleared o) :
    e = .skip ∧ (s.slots i).guard ≠ some o ∧
      ∀ b, b ≠ a → s.Live b → (s.pc b).slot = some i → (s.pc b).pending ≠ some o := by
  obtain ⟨rfl, hold | ⟨hguard, hpending⟩ | ⟨hprobing, hexited⟩⟩ := hfinds.cleared o i hi
  · obtain ⟨hguard, hpending⟩ := hw.cleared a ha o i hold
    exact ⟨rfl, hguard, fun b _ => hpending b⟩
  · refine ⟨rfl, hguard, fun b _ hb hbi => ?_⟩
    rwa [← (hs.owned b i hb hbi).pending]
  · refine ⟨rfl, hw.probing a ha o i hprobing hexited, fun b hba hb hbi => ?_⟩
    exact absurd (hs.owner_live ha (Pc.inside_of_probing hprobing) hexited b hb hbi) hba

/-- An agent moves: without the lock, it takes no octile in a slot that a recovery has looked at. -/
theorem Window.move (hw : Window s) (hs : Inv s) (hb : s.Live b) (hfinds : Finds s b e c)
    (hsources : (s.pc b).inside = false → Sources s b e c)
    (hcalm : ∀ i o, (s.pc b).attempts i o → ∀ a ∈ s.holder, s.Live a → (s.pc a).cleared o ≤ i) :
    Window ((s.apply b e).goto b c) := by
  have hlive := s.live_move b e c
  have hself := State.pc_goto_self (s.apply b e) b c
  have hother := s.pc_move b e c
  -- while another recovery is under way, this agent is without the lock
  have hout : ∀ d, d ≠ b → s.Live d → (s.pc d).inside = true → (s.pc b).inside = false := by
    intro d hdb hd hdin
    by_contra hbin
    exact hdb (hs.excl hb (by simpa using hbin) hd hdin)
  constructor
  · intro a ha o i hi
    rw [hlive] at ha
    obtain rfl | hab := eq_or_ne a b
    · rw [hself] at hi
      obtain ⟨rfl, hguard, hpending⟩ := hw.own hs hb hfinds hi
      refine ⟨hguard, fun d hd hdi => ?_⟩
      obtain rfl | hda := eq_or_ne d a
      · rw [hself, Pc.pending_of_cleared hi]
        exact (nomatch ·)
      · rw [hother d hda] at hdi ⊢
        exact hpending d hda ((hlive d).1 hd) hdi
    · rw [hother a hab] at hi
      have hain := Pc.inside_of_cleared hi
      have hsource := hsources (hout a hab ha hain)
      obtain ⟨hguard, hpending⟩ := hw.cleared a ha o i hi
      constructor
      · intro hnew
        obtain hold | ⟨hbi, hbo⟩ := hsource.guard i o hnew
        · exact hguard hold
        · exact hpending b hb hbi hbo
      · intro d hd hdi hdo
        obtain rfl | hdb := eq_or_ne d b
        · rw [hself] at hdi hdo
          obtain ⟨hbi, hbo | hold | ⟨allowEvicted, hpc⟩⟩ := hsource.pending i o hdi hdo
          · exact hpending d hb hbi hbo
          · exact hguard hold
          · have hattempts : (s.pc d).attempts i o = true := by simp [hpc, Pc.attempts]
            have hle := hcalm i o hattempts a (hs.lock a ha hain) ha
            omega
        · rw [hother d hdb] at hdi hdo
          exact hpending d ((hlive d).1 hd) hdi hdo
  · intro a ha o k hk hexited
    rw [hlive] at ha
    obtain rfl | hab := eq_or_ne a b
    · rw [hself] at hk
      obtain ⟨rfl, hguard⟩ := hfinds.probing o k hk
      exact hguard
    · rw [hother a hab] at hk
      have hbout := hout a hab ha (Pc.inside_of_probing hk)
      have hsource := hsources hbout
      have hexited' : s.ownerExited k = true := by
        unfold State.ownerExited at hexited ⊢
        rw [State.goto, State.exited_apply] at hexited
        rwa [← hsource.owner]
      intro hnew
      obtain hold | ⟨hbk, -⟩ := hsource.guard k o hnew
      · exact hw.probing a ha o k hk hexited' hold
      · simp [hs.not_live_of_exited hb hbout hbk] at hexited'

/-- A call starts at a point that is neither pending nor part of a recovery. -/
theorem call_apart {d : Call} (h : s.call a d = some (e, c)) :
    c.Apart ∧ c.pending = none ∧ e.quiet = true ∧ ∀ i o, (s.pc a).attempts i o = false := by
  cases call_cases h with
  | reader hpc hstart =>
    rw [hpc]
    cases hstart <;> exact ⟨fun _ => ⟨rfl, rfl⟩, rfl, rfl, fun _ _ => rfl⟩
  | construct hpc | scavengeOrphans hpc | openWriter hpc | closeWriter hpc | advanceWriter o hpc =>
    rw [hpc]
    exact ⟨fun _ => ⟨rfl, rfl⟩, rfl, rfl, fun _ _ => rfl⟩

theorem Window.call (hw : Window s) (hs : Inv s) (hb : s.Live b) {d : Call}
    (h : s.call b d = some (e, c)) : Window ((s.apply b e).goto b c) := by
  obtain ⟨hapart, hpending, hquiet, hattempts⟩ := call_apart h
  obtain ⟨hslots, howner, -⟩ := s.apply_quiet b hquiet
  refine hw.move hs hb (.of_apart hapart) (fun _ => .of_clear howner hslots hpending) fun i o hi => ?_
  cases (hattempts i o).symm.trans hi

theorem Window.die (hw : Window s) (hs : Inv s) {p : Process} (hcalm : Calm s (.exit p)) :
    Window { s with exited := insert p s.exited } := by
  have hlive : ∀ b, State.Live { s with exited := insert p s.exited } b → s.Live b := by
    intro b hb hmem
    exact hb (Finset.mem_insert_of_mem hmem)
  constructor
  · intro a ha o i hi
    obtain ⟨hguard, hpending⟩ := hw.cleared a (hlive a ha) o i hi
    exact ⟨hguard, fun b hb => hpending b (hlive b hb)⟩
  · intro a ha o k hk hexited
    replace ha := hlive a ha
    obtain ⟨q, howner, hq⟩ := (Option.any_eq_true _ _).1 hexited
    rw [decide_eq_true_eq, Finset.mem_insert] at hq
    obtain rfl | hq := hq
    · exact hcalm a (hs.lock a ha (Pc.inside_of_probing hk)) ha o k hk howner
    · refine hw.probing a ha o k hk ?_
      unfold State.ownerExited
      rw [howner]
      simpa using hq

/-! ### A recovery that is not disturbed is harmless -/

/-- What an agent owes is pending in its slot, or it has the lock. -/
theorem Pc.owes_cases (h : c.owes = some o) :
    c.inside = true ∨ ∃ i, c.slot = some i ∧ c.pending = some o := by
  cases c with
  | acquireAdded i o' previous | acquireMoved i o' p | released i o' => exact .inr ⟨i, rfl, h⟩
  | _ => first | exact .inl rfl | cases h

theorem store_cleared (hs : Inv s) (ha : s.Live a) {count : ℕ}
    (h : s.next a ch = some (.store o count, c)) :
    (s.pc a).cleared o = n ∧ (s.pc a).owes = none ∧ (s.pc a).inside = true := by
  unfold State.next at h
  cases hpc : s.pc a with
  | unpairedSwap i o' access p =>
    have hclears := hs.clears a i ha (by rw [hpc]; rfl)
    rw [hpc] at hclears
    exact hclears.elim
  | rollbackSwap i o' access | confirmSwap o' access confirm published
  | staleSwap o' access published =>
    simp only [hpc] at h
    split_ifs at h
    · cases h
      exact ⟨if_pos rfl, rfl, rfl⟩
    · cases h
  | _ =>
    simp only [hpc, State.acquireStep, State.releaseStep, State.copyStep, State.clearPendingStep,
      State.countStep, State.scavengeStep, State.eligibleStep, State.evictStep] at h
    first | (split_ifs at h <;> cases h) | (split at h <;> cases h) | cases h

theorem Window.harmless (hw : Window s) (hs : Inv s) {act : Action}
    (hlive : ∀ a ch, act = .advance a ch → s.Live a) : Harmless s act := by
  cases act with
  | advance a ch =>
    have ha := hlive a ch rfl
    intro o count c h x hmem
    obtain ⟨hcleared, hnone, hain⟩ := store_cleared hs ha h
    have hall := fun i : Fin n => hw.cleared a ha o i (by rw [hcleared]; exact i.2)
    obtain i | b := x
    · exact (hall i).1 hmem
    · obtain ⟨hb, howes⟩ := hmem
      obtain hbin | ⟨i, hi, hpending⟩ := Pc.owes_cases howes
      · obtain rfl := hs.excl ha hain hb hbin
        simp [hnone] at howes
      · exact (hall i).2 b hb hi hpending
  | call a d | exit p => trivial

theorem Window.step {t : State n} {act : Action} (hw : Window s) (hs : Inv s) (hcalm : Calm s act)
    (h : (machine n).step s act = some t) : Window t := by
  cases step_cases h with
  | call hb hcall => exact hw.call hs hb hcall
  | advance hb hnext =>
    exact hw.move hs hb (finds hs hnext) (fun hout => sources hs hb hout hnext) hcalm
  | exit p => exact hw.die hs hcalm

end

/-- What a recovery has found stays true in every run that does not disturb it. -/
theorem reachable_window {s : State n} (h : (machine n).ReachableUnder Calm s) : Window s :=
  h.invariant (fun _ h0 => h0 ▸ window_initial)
    fun _ _ _ hreach hw hcalm hstep => hw.step (reachable_inv hreach.reachable) hcalm hstep

/-- A run that disturbs no recovery has only harmless ones. -/
theorem harmless_of_calm {s : State n} (h : (machine n).ReachableUnder Calm s) :
    (machine n).ReachableUnder Harmless s := by
  induction h with
  | init h => exact .init h
  | @step s t act hs _ hstep ih =>
    refine .step ih ((reachable_window hs).harmless (reachable_inv hs.reachable) ?_) hstep
    rintro a ch rfl
    cases step_cases hstep with
    | advance ha _ => exact ha

/-! ### The counts and the guards -/

/-- The slots of live processes that are ACTIVE and guard the octile. -/
def State.guarding (s : State n) (o : Octile) : Finset (Fin n) :=
  Finset.univ.filter fun i => (s.owner i).any (fun p => p ∉ s.exited) ∧
    (s.slots i).status = .active ∧ (s.slots i).guard = some o

/-- As long as no recovery is disturbed, the count of each octile is at least the number of live
readers that guard it. -/
theorem counts_cover_guards {s : State n} (hs : (machine n).ReachableUnder Calm s) (o : Octile) :
    (s.guarding o).card ≤ s.readAccess o := by
  rw [← Finset.card_map Function.Embedding.inl]
  refine (reachable_counted (harmless_of_calm hs) o).card_le fun x hx => ?_
  obtain ⟨i, hi, rfl⟩ := Finset.mem_map.1 hx
  exact (Finset.mem_filter.1 hi).2.2.2

/-! ### Two runs with three slots -/

instance (s : State n) (act : Action) : Decidable (Calm s act) := by
  cases act with
  | advance b ch => exact inferInstanceAs (Decidable (∀ i o, _ → ∀ a ∈ s.holder, _ ∉ _ → _ ≤ _))
  | exit p => exact inferInstanceAs (Decidable (∀ a ∈ s.holder, _ ∉ _ → ∀ o k, _ → _ → _ ≠ _))
  | call b d => exact .isTrue trivial

/-- A reader that dies with a count added and its guard not yet published. -/
def dyingReader : Agent := ⟨.numbered 0, 0⟩

/-- A reader that takes the octile of the recovery and gives it up again. -/
def leavingReader : Agent := ⟨.numbered 1, 0⟩

/-- A reader that takes it and keeps it. -/
def stayingReader : Agent := ⟨.numbered 2, 0⟩

def theWriter : Agent := ⟨.numbered 3, 0⟩

/-- Nothing stops, fails or is found dead; the freelist has the given slot on top. -/
def plain (slot : ℕ) : Choice := ⟨false, false, slot, false, false, false, false, false⟩

/-- An agent takes a number of steps. -/
def run (a : Agent) (k : ℕ) : List Action := List.replicate k (.advance a (plain 0))

/-- The writer takes a number of steps in which an owner that is probed is found dead. -/
def finding (k : ℕ) : List Action := List.replicate k (.advance theWriter { plain 0 with dead := true })

def constructs (a : Agent) (slot : ℕ) : List Action :=
  .call a .construct :: List.replicate 9 (.advance a (plain slot))

/-- The first two steps of `acquire_guard`: pending is published and the count is added. -/
def starts (a : Agent) (o : Octile) : List Action := .call a (.acquireGuard o false) :: run a 2

def acquires (a : Agent) (o : Octile) : List Action := starts a o ++ run a 1

def releases (a : Agent) : List Action := .call a .releaseGuard :: run a 3

/-- Three readers and a writer are there, and one reader has died with a count added. The writer finds
the octile blocked, no live reader that blocks it, and clears the slot of the dead one. It has the lock
and is about to load the word. -/
def leakedRun : List Action :=
  constructs stayingReader 0 ++ constructs leavingReader 1 ++ constructs dyingReader 2 ++
    .call theWriter .openWriter :: run theWriter 6 ++
    starts dyingReader .first ++ [.exit dyingReader.process] ++
    .call theWriter (.advanceWriter .first) :: run theWriter 2 ++ finding 5 ++ run theWriter 3 ++
    finding 1 ++ run theWriter 10

/-- Undisturbed, the writer recovers the count; a reader then takes the octile. -/
theorem counts_cover_guards_recovered : ∃ s : State 3, (machine 3).ReachableUnder Calm s ∧
    s.pc theWriter = .leave (.blocked 0 false) ∧ (s.guarding 0).card = 1 ∧
    (s.guarding 0).card ≤ s.readAccess 0 := by
  obtain ⟨s, hs, hpc, hcard, -⟩ :
      ∃ s, (machine 3).ReachableUnder Calm s ∧ s.pc theWriter = .leave (.blocked 0 false) ∧
        (s.guarding 0).card = 1 ∧ s.readAccess 0 = 1 :=
    Machine.exists_reachableUnder_of_exec (leakedRun ++ run theWriter 15 ++ acquires stayingReader 0)
      rfl (by decide +kernel)
  exact ⟨s, hs, hpc, hcard, counts_cover_guards hs 0⟩

/-- The word is loaded for the last time while the leaving reader has the octile. The staying reader
takes it when its own slot has been loaded, and the leaving reader gives it up when its slot has not.
The word is equal when it is compared, and the count of the staying reader is wiped. -/
theorem recovery_wipes_guard : ∃ s : State 3, (machine 3).Reachable s ∧
    stayingReader.process ∉ s.exited ∧ s.pc stayingReader = .owns 0 .acquired ∧
    0 ∈ s.guarding 0 ∧ s.readAccess 0 = 0 :=
  Machine.exists_reachable_of_exec
    (leakedRun ++ run theWriter 9 ++ acquires leavingReader 0 ++ run theWriter 2 ++
      acquires stayingReader 0 ++ releases leavingReader ++ run theWriter 4)
    rfl (by decide +kernel)

end Sintra.Ring.Guards
