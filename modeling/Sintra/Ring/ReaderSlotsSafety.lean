import Sintra.Ring.ReaderSlotsInvariant

/-!
# Reader slots are conserved
-/

namespace Sintra.Ring.Slots

variable {n : ℕ}

/-! ### A call of `scavenge_orphans` on its own -/

/-- A step of the agent that meets no failed reset and, at a slot whose owner is dead, gets the
answer DEAD. -/
def State.undisturbed (s : State n) (a : Agent) : Action n → Bool
  | .advance b ch =>
    b = a && !ch.resetError &&
      match s.pc a with
      | .scan _ k => if h : k < n then !s.ownerExited ⟨k, h⟩ || ch.answersDead else true
      | _ => true
  | _ => false

/-- The steps of one agent, undisturbed. -/
def solo (n : ℕ) (a : Agent) : Machine (State n) (Action n) :=
  (machine n).restrict fun s act => s.undisturbed a act = true

/-- The slots no live reader owns. -/
def State.orphans (s : State n) : Finset (Fin n) :=
  Finset.univ.filter fun i => s.ownedByLive i = false

/-- The call an agent is in. -/
def Pc.call : Pc n → Option (Scan n)
  | .scan c _ | .freeing c _ _ | .push _ (.scan c _) | .pushing _ _ (.scan c _) => some c
  | _ => none

/-- A call that was not made by a constructor, found these orphans and was not disturbed. -/
def Scan.Sound (c : Scan n) (orphans : Finset (Fin n)) : Prop :=
  c.orphans = orphans ∧ c.clean = true ∧ c.forAdmission = false

section

variable {s t t' : State n} {a : Agent}

theorem solo_step {act : Action n} (h : (solo n a).step s act = some t) :
    ∃ ch, act = .advance a ch ∧ s.undisturbed a act = true ∧ s.Live a ∧ s.advance a ch = some t := by
  simp only [solo, Machine.restrict] at h
  split_ifs at h with hund
  cases act with
  | advance b ch =>
    have hba : b = a := by
      simp only [State.undisturbed, Bool.and_eq_true, decide_eq_true_eq] at hund
      exact hund.1.1
    subst hba
    simp only [machine, State.step] at h
    split_ifs at h with hlive
    exact ⟨ch, rfl, hund, hlive, h⟩
  | _ => cases hund

variable {c : Scan n} {orphans : Finset (Fin n)} {i : Fin n}

/-- A step of a sound call stays in a sound call, or returns from it with all orphans freed. -/
theorem sound_advance {ch : Choice} (hs : Inv s) (ha : s.Live a) (hc : (s.pc a).call = some c)
    (hsound : c.Sound orphans) (hund : s.undisturbed a (.advance a ch) = true)
    (h : s.advance a ch = some t) :
    (∃ d, (t.pc a).call = some d ∧ d.Sound orphans) ∨
      t.pc a = .idle ∧ ∀ i ∈ orphans, t.Free i := by
  obtain ⟨horphans, hclean, hcaller⟩ := hsound
  have hcall : ∀ {u : State n} {p : Pc n}, ((u.goto a p).pc a).call = p.call :=
    congrArg Pc.call (State.pc_goto_self _ a _)
  cases hpc : s.pc a with
  | scan d k =>
    obtain rfl : d = c := by simpa [hpc, Pc.call] using hc
    simp only [State.undisturbed, hpc, Bool.and_eq_true, Bool.not_eq_true'] at hund
    obtain ⟨⟨-, herror⟩, hdead⟩ := hund
    simp only [State.advance, hpc] at h
    split at h
    next hk =>
      rw [dif_pos hk, Bool.or_eq_true, Bool.not_eq_true'] at hdead
      left
      unfold State.scanStep at h
      simp only [herror, Bool.false_eq_true, if_false] at h
      split_ifs at h with hinactive hanswer hexited
      all_goals cases h
      · exact ⟨d, hcall, horphans, hclean, hcaller⟩
      · exact ⟨{ d with freed := true }, hcall, horphans, hclean, hcaller⟩
      · obtain hdead | hdead := hdead
        · refine ⟨{ d with clean := d.clean && !s.ownerExited ⟨k, hk⟩ }, hcall, horphans, ?_, hcaller⟩
          simp [hclean, hdead]
        · exact absurd hdead hanswer
    next hk =>
      cases h
      right
      have hscan : ScanOk s d k := hs.knows ha hpc rfl
      refine ⟨?_, fun i hi => ?_⟩
      · rw [hcaller]
        exact State.pc_goto_self _ _ _
      · obtain ⟨j, hj, hji⟩ := hscan.freed hclean i (horphans ▸ hi) (by omega)
        rw [State.settled_of_pc (hs.holds ha hpc rfl) hpc rfl] at hj
        exact ⟨j, hj, hji⟩
  | freeing d i k =>
    obtain rfl : d = c := by simpa [hpc, Pc.call] using hc
    simp only [State.advance, hpc] at h
    left
    split_ifs at h
    all_goals
      cases h
      exact ⟨d, hcall, horphans, hclean, hcaller⟩
  | push i r =>
    left
    cases r with
    | scan d k =>
      obtain rfl : d = c := by simpa [hpc, Pc.call] using hc
      simp only [State.advance, hpc, State.pushStep] at h
      split_ifs at h
      all_goals cases h
      · exact ⟨{ d with freed := d.freed || false }, hcall, horphans, hclean, hcaller⟩
      · exact ⟨d, hcall, horphans, hclean, hcaller⟩
      · exact ⟨d, hcall, horphans, hclean, hcaller⟩
    | failed | retired => simp [hpc, Pc.call] at hc
  | pushing i countFirst r =>
    left
    cases r with
    | scan d k =>
      obtain rfl : d = c := by simpa [hpc, Pc.call] using hc
      cases countFirst with
      | true | false =>
        simp only [State.advance, hpc] at h
        cases h
        exact ⟨{ d with freed := d.freed || true }, hcall, horphans, hclean, hcaller⟩
    | failed | retired => simp [hpc, Pc.call] at hc
  | _ => simp [hpc, Pc.call] at hc

/-! ### The call comes to its end -/

/-- A bound on the stores a call has still to make. -/
def Pc.rest : Pc n → ℕ
  | .scan _ k => (n + 1 - k) * 16
  | .freeing _ i k => (n + 1 - i) * 16 - 1 - k
  | .push i _ => (n + 1 - i) * 16 - 10
  | .pushing i _ _ => (n + 1 - i) * 16 - 11
  | _ => 0

/-- A slot that is not on the stack finds room there. -/
theorem Inv.count_lt (hs : Inv s) (hsettled : s.settled = s.stack.count)
    (hi : s.stack.contains i = false) : s.stack.count < n := by
  have hlt : ∀ j : Fin s.stack.count, (j : ℕ) < s.settled := fun j => by omega
  have hentry : ∀ j : Fin s.stack.count, ∃ k, s.stack.arr j = some k := by
    intro j
    obtain ⟨k, hk, -⟩ := hs.entry j (hlt j)
    exact ⟨k, hk⟩
  choose f hf using hentry
  have hinj : Function.Injective f := by
    intro j k hjk
    refine Fin.ext (hs.distinct j (hlt j) k (hlt k) ?_)
    rw [hf j, hf k, hjk]
  have hmem : i ∉ Set.range f := by
    rintro ⟨j, rfl⟩
    have hcontains := IndexStack.contains_iff.2 ⟨j, j.2, hf j⟩
    simp [hi] at hcontains
  simpa using Fintype.card_lt_of_injective_of_notMem f hinj hmem

/-- An undisturbed choice at a slot: no failed reset, and DEAD exactly when the owner is. -/
def State.definite (s : State n) (i : Fin n) : Choice where
  resetError := false
  answersDead := s.ownerExited i
  countFirst := false
  namespaces := Owner.empty

/-- An undisturbed step is possible and the call is then nearer to its end, or over. -/
def Nearer (s : State n) (a : Agent) : Prop :=
  ∃ ch t, s.undisturbed a (.advance a ch) = true ∧ s.advance a ch = some t ∧ t.exited = s.exited ∧
    ((t.pc a).rest < (s.pc a).rest ∨ (t.pc a).call = none)

theorem nearer_goto {u : State n} {c : Pc n} {ch : Choice}
    (hund : s.undisturbed a (.advance a ch) = true) (h : s.advance a ch = some (u.goto a c))
    (hexited : u.exited = s.exited) (hrest : c.rest < (s.pc a).rest ∨ c.call = none) :
    Nearer s a := by
  refine ⟨ch, u.goto a c, hund, h, hexited, ?_⟩
  rwa [State.pc_goto_self]

theorem nearer_scan {k : ℕ} (hpc : s.pc a = .scan c k) : Nearer s a := by
  by_cases hk : k < n
  · have hund : s.undisturbed a (.advance a (s.definite ⟨k, hk⟩)) = true := by
      simp [State.undisturbed, State.definite, hpc, hk]
    have hadv : s.advance a (s.definite ⟨k, hk⟩) =
        s.scanStep a (s.definite ⟨k, hk⟩) c ⟨k, hk⟩ := by
      simp only [State.advance, hpc, dif_pos hk]
    have hfreeing : ∀ d, (Pc.freeing d ⟨k, hk⟩ 0).rest < (s.pc a).rest := by
      intro d
      simp only [hpc, Pc.rest]
      omega
    by_cases hinactive : (s.slots ⟨k, hk⟩).status = .inactive
    · refine nearer_goto hund ?_ rfl (.inl (hfreeing c))
      rw [hadv]
      simp [State.scanStep, hinactive, State.definite]
    · by_cases hexited : s.ownerExited ⟨k, hk⟩ = true
      · refine nearer_goto (u := (s.setStatus ⟨k, hk⟩ .inactive).setTenant ⟨k, hk⟩ none)
          (c := .freeing { c with freed := true } ⟨k, hk⟩ 0) hund ?_ rfl (.inl (hfreeing _))
        rw [hadv]
        simp [State.scanStep, hinactive, State.definite, hexited]
      · refine nearer_goto
          (c := .scan { c with clean := c.clean && !s.ownerExited ⟨k, hk⟩ } (k + 1)) hund ?_ rfl
          (.inl ?_)
        · rw [hadv]
          simp [State.scanStep, hinactive, State.definite, hexited]
        · simp only [hpc, Pc.rest]
          omega
  · refine nearer_goto (u := { s with holder := none })
      (c := if c.forAdmission && c.freed then .admission true else .idle)
      (show s.undisturbed a (.advance a ⟨false, false, false, Owner.empty⟩) = true from ?_) ?_ rfl (.inr ?_)
    · simp [State.undisturbed, hpc, hk]
    · simp only [State.advance, hpc, dif_neg hk]
      rfl
    · split_ifs <;> rfl

theorem nearer_freeing {k : ℕ} (hpc : s.pc a = .freeing c i k) (hk : k ≤ Owner.words) :
    Nearer s a := by
  have hund : s.undisturbed a (.advance a (s.definite i)) = true := by
    simp [State.undisturbed, State.definite, hpc]
  unfold Owner.words at hk
  by_cases hlt : k < Owner.words
  · refine nearer_goto (u := s.setOwner i (Owner.empty.store (s.slots i).owner k))
      (c := .freeing c i (k + 1)) hund ?_ rfl (.inl ?_)
    · simp only [State.advance, hpc, if_pos hlt]
    · simp only [hpc, Pc.rest]
      omega
  · refine nearer_goto (c := .push i (.scan c (i + 1))) hund ?_ rfl (.inl ?_)
    · simp only [State.advance, hpc, if_neg hlt]
    · simp only [hpc, Pc.rest]
      omega

theorem nearer_push (hs : Inv s) (hh : s.holder = some a) (hpc : s.pc a = .push i (.scan c (i + 1))) :
    Nearer s a := by
  have hund : s.undisturbed a (.advance a (s.definite i)) = true := by
    simp [State.undisturbed, State.definite, hpc]
  by_cases hcontains : s.stack.contains i = true
  · refine nearer_goto (c := (Return.scan c (i + 1)).next false) hund ?_ rfl (.inl ?_)
    · simp only [State.advance, hpc, State.pushStep, if_pos hcontains]
    · simp only [hpc, Return.next, Pc.rest]
      omega
  · have hroom := hs.count_lt (State.settled_of_pc hh hpc rfl) (Bool.eq_false_iff.2 hcontains)
    refine nearer_goto (u := s.setEntry s.stack.count (some i))
      (c := .pushing i false (.scan c (i + 1))) hund ?_ rfl (.inl ?_)
    · simp [State.advance, hpc, State.pushStep, hcontains, hroom.not_ge, State.definite]
    · simp only [hpc, Pc.rest]
      omega

theorem nearer_pushing {countFirst : Bool} (hpc : s.pc a = .pushing i countFirst (.scan c (i + 1))) :
    Nearer s a := by
  have hund : s.undisturbed a (.advance a (s.definite i)) = true := by
    simp [State.undisturbed, State.definite, hpc]
  have hrest : ((Return.scan c (i + 1)).next true).rest < (s.pc a).rest := by
    simp only [hpc, Return.next, Pc.rest]
    omega
  cases countFirst with
  | true =>
    refine nearer_goto (u := s.setEntry (s.stack.count - 1) (some i)) hund ?_ rfl (.inl hrest)
    simp only [State.advance, hpc]
  | false =>
    refine nearer_goto (u := s.setCount (s.stack.count + 1)) hund ?_ rfl (.inl hrest)
    simp only [State.advance, hpc]

/-- The holder of the lock that is in a call is never stuck. -/
theorem Inv.nearer (hs : Inv s) (ha : s.Live a) (hc : (s.pc a).call = some c) : Nearer s a := by
  cases hpc : s.pc a with
  | scan d k => exact nearer_scan hpc
  | freeing d i k => exact nearer_freeing hpc (hs.knows ha hpc rfl).2.1
  | push i r =>
    cases r with
    | scan d k =>
      obtain ⟨-, rfl, -⟩ := hs.knows ha hpc rfl
      exact nearer_push hs (hs.holds ha hpc rfl) hpc
    | failed | retired => simp [hpc, Pc.call] at hc
  | pushing i countFirst r =>
    cases r with
    | scan d k =>
      cases countFirst with
      | true | false =>
        obtain ⟨-, -, -, rfl, -⟩ := hs.knows ha hpc rfl
        exact nearer_pushing hpc
    | failed | retired => simp [hpc, Pc.call] at hc
  | _ => simp [hpc, Pc.call] at hc

/-- From within a sound call the agent alone comes to its end. -/
theorem sound_returns (hs : Inv s) (ha : s.Live a) (hc : (s.pc a).call = some c)
    (hsound : c.Sound orphans) : ∃ t, (solo n a).Steps s t ∧ t.pc a = .idle := by
  induction hrest : (s.pc a).rest using Nat.strong_induction_on generalizing s c with
  | _ m ih =>
    obtain ⟨ch, t, hund, hadv, hexited, hnearer⟩ := hs.nearer ha hc
    have hstep : (solo n a).step s (.advance a ch) = some t := by
      simp only [solo, Machine.restrict, if_pos hund]
      exact (if_pos ha).trans hadv
    obtain ⟨d, hd, hdsound⟩ | ⟨hidle, -⟩ := sound_advance hs ha hc hsound hund hadv
    · obtain hlt | hnone := hnearer
      · have hlive : t.Live a := by rwa [State.Live, hexited]
        obtain ⟨u, hu, hidle⟩ :=
          ih _ (hrest ▸ hlt) (hs.advance ha hadv) hlive hd hdsound rfl
        exact ⟨u, (Machine.Steps.single hstep).trans hu, hidle⟩
      · simp [hd] at hnone
    · exact ⟨t, .single hstep, hidle⟩

/-! ### A whole call -/

/-- What holds after any number of undisturbed steps of an agent that calls `scavenge_orphans`. -/
def CallOk (s : State n) (a : Agent) (orphans : Finset (Fin n)) : Prop :=
  (s.pc a = .scavenge false ∧ s.orphans = orphans) ∨
    (∃ c, (s.pc a).call = some c ∧ c.Sound orphans) ∨
    (s.pc a = .idle ∧ ∀ i ∈ orphans, s.Free i)

theorem CallOk.step {act : Action n} (hs : Inv s) (hcall : CallOk s a orphans)
    (h : (solo n a).step s act = some t) : Inv t ∧ CallOk t a orphans := by
  obtain ⟨ch, rfl, hund, ha, hadv⟩ := solo_step h
  refine ⟨hs.advance ha hadv, ?_⟩
  obtain ⟨hpc, rfl⟩ | ⟨c, hc, hsound⟩ | ⟨hpc, -⟩ := hcall
  · -- the call takes the lock and notes the orphans
    simp only [State.advance, hpc, State.lock] at hadv
    split_ifs at hadv
    cases hadv
    refine .inr (.inl ⟨_, by rw [State.pc_goto_self]; rfl, ?_⟩)
    exact ⟨rfl, rfl, rfl⟩
  · exact .inr (sound_advance hs ha hc hsound hund hadv)
  · simp [State.advance, hpc] at hadv

theorem CallOk.steps (hs : Inv s) (hcall : CallOk s a orphans) (h : (solo n a).Steps s t) :
    Inv t ∧ CallOk t a orphans := by
  induction h with
  | refl => exact ⟨hs, hcall⟩
  | tail _ hstep ih => exact ih.2.step ih.1 hstep

/-- An undisturbed call that finds the lock free comes to its end, and whenever it has, the orphans
it found are on the freelist. -/
theorem Inv.call (hs : Inv s) (hfree : s.lockFree = true) (ha : s.Live a) (hpc : s.pc a = .idle) :
    (∃ t, (solo n a).Steps (s.goto a (.scavenge false)) t ∧ t.pc a = .idle) ∧
      ∀ t, (solo n a).Steps (s.goto a (.scavenge false)) t → t.pc a = .idle →
        ∀ i ∈ s.orphans, t.Free i := by
  have hself : (s.goto a (.scavenge false)).pc a = .scavenge false := s.pc_goto_self a _
  have hinv : Inv (s.goto a (.scavenge false)) := hs.outside ha hpc rfl rfl rfl
  have hcall : CallOk (s.goto a (.scavenge false)) a s.orphans := .inl ⟨hself, rfl⟩
  constructor
  · -- the lock is taken, and from there on the call is sound
    let t := { s.goto a (.scavenge false) with holder := some a }.goto a (.scan
      { forAdmission := false, freed := false, orphans := s.orphans, clean := true } 0)
    have hstep : (solo n a).step (s.goto a (.scavenge false))
        (.advance a ⟨false, false, false, Owner.empty⟩) = some t := by
      have hund : (s.goto a (.scavenge false)).undisturbed a
          (.advance a ⟨false, false, false, Owner.empty⟩) = true := by
        simp [State.undisturbed, hself]
      simp only [solo, Machine.restrict, if_pos hund, machine, State.step]
      refine (if_pos ha).trans ?_
      simp only [State.advance, hself, State.lock]
      exact if_pos hfree
    obtain ⟨u, hu, hidle⟩ := sound_returns
      (hcall.step hinv hstep).1 ha (by rw [State.pc_goto_self]; rfl) ⟨rfl, rfl, rfl⟩
    exact ⟨u, (Machine.Steps.single hstep).trans hu, hidle⟩
  · intro t ht hidle
    obtain ⟨-, ⟨hscavenge, -⟩ | ⟨c, hc, -⟩ | ⟨-, hfreed⟩⟩ := hcall.steps hinv ht
    · simp [hidle] at hscavenge
    · simp [hidle, Pc.call] at hc
    · exact hfreed

/-- An entry of the stack that is not in place is the last one, of a live holder of the lock between
the two stores of its push. -/
theorem Inv.settled_or (hs : Inv s) : s.settled = s.stack.count ∨
    ∃ a, s.holder = some a ∧ s.Live a ∧ (s.pc a).reserving = true ∧
      s.settled + 1 = s.stack.count := by
  cases hh : s.holder with
  | none => simp [State.settled, hh]
  | some a =>
    rw [State.settled_of_holder hh]
    by_cases hreserving : (s.pc a).reserving = true
    · have ha : s.Live a := by
        by_contra hdead
        have hwindow := hs.window a hh hdead
        simp [Pc.inWindow, hreserving] at hwindow
      refine .inr ⟨a, rfl, ha, hreserving, ?_⟩
      have hcount : 1 ≤ s.stack.count := by
        cases hpc : s.pc a with
        | pushing i countFirst r =>
          obtain rfl : countFirst = true := by simpa [hpc, Pc.reserving] using hreserving
          exact (hs.knows ha hpc rfl).2.2.1
        | _ => simp [hpc, Pc.reserving] at hreserving
      rw [if_pos hreserving]
      omega
    · exact .inl (if_neg hreserving)

end

/-! ### The result -/

instance (s : State n) (i : Fin n) : Decidable (s.Free i) :=
  inferInstanceAs (Decidable (∃ j < s.settled, s.stack.arr j = some i))

instance (s : State n) (act : Action n) : Decidable (SafeDeath s act) :=
  match act with
  | .exit p =>
    inferInstanceAs (Decidable ((s.holder.any fun a => a.process = p && (s.pc a).inWindow) = false))
  | .construct _ | .destroy _ | .scavenge _ | .advance .. | .evict _ | .resume _ => isTrue trivial

/-- In every run in which no process dies in one of the two windows,

* the freelist holds distinct indices of INACTIVE slots, but for the last entry while a live process
  is between the two stores of a push;
* two live readers never own one slot;
* as soon as no live process holds the lock, a call of `scavenge_orphans` by any live agent, with no
  failed reset and definite answers for dead owners, comes to its end, and when it has, every slot
  that no live reader owned is on the freelist. -/
theorem slots_conserved {s : State n} (hs : (machine n).ReachableUnder SafeDeath s) :
    ((∀ j < s.settled, ∃ i, s.stack.arr j = some i ∧ (s.slots i).status = .inactive) ∧
      (∀ j < s.settled, ∀ k < s.settled, s.stack.arr j = s.stack.arr k → j = k) ∧
      (s.settled = s.stack.count ∨ ∃ a, s.holder = some a ∧ s.Live a ∧
        (s.pc a).reserving = true ∧ s.settled + 1 = s.stack.count)) ∧
    (∀ a b i, s.Live a → s.Live b → (s.pc a).slot = some i → (s.pc b).slot = some i → a = b) ∧
    (s.lockFree = true → ∀ a, s.Live a → s.pc a = .idle →
      (∃ t, (solo n a).Steps (s.goto a (.scavenge false)) t ∧ t.pc a = .idle) ∧
      ∀ t, (solo n a).Steps (s.goto a (.scavenge false)) t → t.pc a = .idle →
        ∀ i, s.ownedByLive i = false → t.Free i) := by
  have hinv := reachable_inv hs
  refine ⟨⟨?_, hinv.distinct, hinv.settled_or⟩, ?_, ?_⟩
  · intro j hj
    obtain ⟨i, hi, hnone⟩ := hinv.entry j hj
    exact ⟨i, hi, (hinv.inactive i).2 hnone⟩
  · intro a b i ha hb hai hbi
    have hta := (hinv.slot a i ha).1 hai
    have htb := (hinv.slot b i hb).1 hbi
    exact Option.mem_unique hta htb
  · intro hfree a ha hpc
    obtain ⟨hreturns, hfreed⟩ := hinv.call hfree ha hpc
    refine ⟨hreturns, fun t ht hidle i hi => hfreed t ht hidle i ?_⟩
    simpa [State.orphans] using hi

/-! ### Two runs with one slot -/

/-- The process of the reader. -/
def readerProcess : Process := .numbered 0

def reader : Agent := ⟨readerProcess, 0⟩

/-- An agent of another process. -/
def survivor : Agent := ⟨.numbered 1, 0⟩

/-- No reset fails and no owner is found dead. -/
def calm : Choice := ⟨false, false, false, Owner.empty⟩

/-- The reader is constructed. -/
def constructed : List (Action 1) := .construct reader :: List.replicate 14 (.advance reader calm)

/-- The process of a constructed reader dies, and a call of another process returns its slot. -/
theorem slots_conserved_orphan : ∃ s : State 1, (machine 1).ReachableUnder SafeDeath s ∧
    s.pc reader = .owns 0 ∧ ¬s.Free 0 ∧
    ∃ t, (solo 1 survivor).Steps (s.goto survivor (.scavenge false)) t ∧
      t.pc survivor = .idle ∧ t.Free 0 := by
  obtain ⟨s, hs, hreader, hfree, hlock, hidle, hlive, howned⟩ :
      ∃ s, (machine 1).ReachableUnder SafeDeath s ∧ s.pc reader = .owns 0 ∧ ¬s.Free 0 ∧
        s.lockFree = true ∧ s.pc survivor = .idle ∧ survivor.process ∉ s.exited ∧
        s.ownedByLive 0 = false :=
    Machine.exists_reachableUnder_of_exec (constructed ++ [.exit readerProcess]) rfl (by decide +kernel)
  obtain ⟨⟨t, ht, hreturned⟩, hfreed⟩ := (slots_conserved hs).2.2 hlock survivor hlive hidle
  exact ⟨s, hs, hreader, hfree, t, ht, hreturned, hfreed t ht hreturned 0 howned⟩

/-- The reader dies in its destructor when only the PID of the slot's owner is cleared. An undisturbed
call of another process then comes to its end and has not returned the slot, though no live reader
owns it. -/
theorem destructor_loses_slot : ∃ s : State 1, (machine 1).Reachable s ∧
    s.lockFree = true ∧ survivor.process ∉ s.exited ∧ s.pc survivor = .idle ∧
    s.ownedByLive 0 = false ∧
    ∃ t, (solo 1 survivor).Steps (s.goto survivor (.scavenge false)) t ∧
      t.pc survivor = .idle ∧ ¬t.Free 0 := by
  obtain ⟨s, hs, hlock, hlive, hidle, howned, hcall⟩ :
      ∃ s, (machine 1).Reachable s ∧ s.lockFree = true ∧ survivor.process ∉ s.exited ∧
        s.pc survivor = .idle ∧ s.ownedByLive 0 = false ∧
        (((solo 1 survivor).exec (s.goto survivor (.scavenge false))
          (List.replicate 3 (.advance survivor calm))).any
            fun t => t.pc survivor = .idle ∧ ¬t.Free 0) = true :=
    Machine.exists_reachable_of_exec
      (constructed ++ .destroy reader :: List.replicate 3 (.advance reader calm) ++
        [.exit readerProcess]) rfl (by decide +kernel)
  obtain ⟨t, ht, hreturned, hlost⟩ := Machine.exists_steps_of_exec _ hcall
  exact ⟨s, hs, hlock, hlive, hidle, howned, t, ht, hreturned, hlost⟩

end Sintra.Ring.Slots
