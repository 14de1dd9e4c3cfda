import Sintra.Ring.GuardsSteps
import Sintra.Lib.Holders

/-!
# Counts and guards

Who holds a count of an octile: a slot that guards it, and an agent that has added a count it has not
yet published as a guard, or has taken a guard whose count it has not yet released. The counts cover
their holders (`Counted`) as long as the recovery of leaked counts, which overwrites a count by a
compare-and-swap, finds no holder at that moment (`Harmless`).
-/

namespace Sintra.Ring.Guards

open Function

open Slots (Agent)

variable {n : ℕ}

/-! ### Holders -/

/-- The octile whose count an agent has to publish or to release. -/
def Pc.owes : Pc n → Option Octile
  | .acquireAdded _ o _ => some o
  | .acquireMoved _ _ p => some p
  | .released _ o => some o
  | .doneCount _ o => some o
  | .clearPending _ guard mode _ => if mode = .paired then guard else none
  | .clearCount _ o _ => some o
  | .evictCount _ _ guard _ => some guard
  | _ => none

/-- A slot holds a count of the octile it guards, a live agent that of the octile it owes. -/
def State.holders (s : State n) (o : Octile) : Set (Fin n ⊕ Agent)
  | .inl i => (s.slots i).guard = some o
  | .inr a => s.Live a ∧ (s.pc a).owes = some o

/-- The counts cover their holders. -/
def Counted (s : State n) : Prop := ∀ o, Covers (s.readAccess o) (s.holders o)

/-- A recovery overwrites no count that is held. -/
def Harmless (s : State n) : Action → Prop
  | .advance a ch => ∀ o count c, s.next a ch = some (.store o count, c) → ∀ x, x ∉ s.holders o
  | _ => True

theorem counted_initial : Counted (State.initial n) := by
  intro o
  refine Covers.empty ?_
  rintro (i | a) h
  · cases h
  · cases h.2

/-- One if the octile is `o`. -/
def token (g : Option Octile) (o : Octile) : ℕ := if g = some o then 1 else 0

section

variable {s : State n} {a : Agent} {e : Effect n} {c : Pc n}

theorem holding_slot (s : State n) (o : Octile) (i : Fin n) :
    holding (s.holders o) (.inl i) = token (s.slots i).guard o := by
  by_cases h : (s.slots i).guard = some o
  · rw [token, if_pos h]
    exact holding_of_mem h
  · rw [token, if_neg h]
    exact holding_of_notMem h

theorem holding_agent (ha : s.Live a) (o : Octile) :
    holding (s.holders o) (.inr a) = token (s.pc a).owes o := by
  by_cases h : (s.pc a).owes = some o
  · rw [token, if_pos h]
    exact holding_of_mem ⟨ha, h⟩
  · rw [token, if_neg h]
    exact holding_of_notMem fun hmem => h hmem.2

/-- What a step has to balance: an agent that writes a word may move a count between the slot and
itself, it may add the count it then owes, and it owes the count it releases. -/
def Balanced (s : State n) (a : Agent) (c : Pc n) : Effect n → Prop
  | .word i w => ∀ o,
      token c.owes o + token w.guard o ≤ token (s.pc a).owes o + token (s.slots i).guard o
  | .add o => c.owes = some o
  | .sub o => (s.pc a).owes = some o ∧ c.owes = none
  | _ => c.owes = none

theorem State.holders_goto (s : State n) (o : Octile) (b : Agent) (hb : b ≠ a) :
    Sum.inr b ∈ ((s.apply a e).goto a c).holders o ↔ Sum.inr b ∈ s.holders o := by
  show (_ ∧ _) ↔ (_ ∧ _)
  rw [s.pc_move a e c b hb, s.live_move]

theorem Counted.move (hc : Counted s) (ha : s.Live a) (hbalanced : Balanced s a c e)
    (hstore : ∀ o count, e = .store o count → ∀ x, x ∉ s.holders o) :
    Counted ((s.apply a e).goto a c) := by
  have hlive := (s.live_move a e c a).2 ha
  have hself : ∀ o, holding (((s.apply a e).goto a c).holders o) (.inr a) = token c.owes o := by
    intro o
    rw [holding_agent hlive, State.pc_goto_self]
  intro o
  -- a step that leaves the slots alone touches one holder, the agent
  have hquiet : (s.apply a e).slots = s.slots →
      token c.owes o + s.readAccess o ≤ token (s.pc a).owes o + (s.apply a e).readAccess o →
      Covers (((s.apply a e).goto a c).readAccess o) (((s.apply a e).goto a c).holders o) := by
    intro hslots hle
    refine (hc o).replace (x := .inr a) ?_ ?_
    · rintro (i | b) hne hmem
      · have hguard : ((s.apply a e).slots i).guard = some o := hmem
        rw [hslots] at hguard
        exact hguard
      · exact (s.holders_goto o b fun hba => hne (by rw [hba])).1 hmem
    · rw [hself, holding_agent ha]
      exact hle
  have hzero : c.owes = none → token c.owes o = 0 := fun h => by rw [token, if_neg (by simp [h])]
  cases e with
  | word i w =>
    refine (hc o).exchange (x := .inr a) (y := .inl i) (nomatch ·) ?_ ?_
    · rintro (j | b) hne hne' hmem
      · have hguard : (update s.slots i w j).guard = some o := hmem
        rw [update_of_ne fun hji => hne' (by rw [hji])] at hguard
        exact hguard
      · exact (s.holders_goto o b fun hba => hne (by rw [hba])).1 hmem
    · have hword : ((s.apply a (.word i w)).goto a c).slots i = w := update_self _ _ _
      rw [hself, holding_agent ha, holding_slot, holding_slot, hword]
      exact Nat.add_le_add_right (hbalanced o) _
  | add o' =>
    refine hquiet rfl ?_
    show _ ≤ _ + update s.readAccess o' (s.readAccess o' + 1) o
    obtain rfl | ho := eq_or_ne o o'
    · rw [update_self, token]
      split_ifs <;> omega
    · rw [update_of_ne ho, token, if_neg]
      · omega
      · rw [show c.owes = some o' from hbalanced]
        exact fun h => ho (Option.some.inj h).symm
  | sub o' =>
    obtain ⟨howed, hnone⟩ := hbalanced
    refine hquiet rfl ?_
    show _ ≤ _ + update s.readAccess o' (s.readAccess o' - 1) o
    rw [hzero hnone]
    obtain rfl | ho := eq_or_ne o o'
    · rw [update_self, token, if_pos howed]
      omega
    · rw [update_of_ne ho]
      omega
  | store o' count =>
    obtain rfl | ho := eq_or_ne o o'
    · refine Covers.empty ?_
      rintro (i | b) hmem
      · exact hstore o count rfl (.inl i) hmem
      · obtain rfl | hba := eq_or_ne b a
        · have howes : c.owes = some o := by
            have h := hmem.2
            rwa [State.pc_goto_self] at h
          rw [show c.owes = none from hbalanced] at howes
          cases howes
        · exact hstore o count rfl (.inr b) ((s.holders_goto o b hba).1 hmem)
    · refine hquiet rfl ?_
      show _ ≤ _ + update s.readAccess o' count o
      rw [hzero hbalanced, update_of_ne ho]
      omega
  | _ =>
    refine hquiet rfl ?_
    show _ ≤ _ + s.readAccess o
    rw [hzero hbalanced]
    omega

/-! ### Every step is balanced -/

/-- A write that keeps the guard, by an agent that owes nothing afterwards. -/
theorem balanced_word {i : Fin n} {w : ReaderState} (howes : c.owes = none)
    (hguard : w.guard = (s.slots i).guard) : Balanced s a c (.word i w) := by
  intro o
  rw [howes, hguard]
  exact Nat.add_le_add_right (Nat.zero_le _) _

/-- A write that takes the guard, by an agent that then owes its count. -/
theorem balanced_take {i : Fin n} {w : ReaderState} (howes : c.owes = (s.slots i).guard)
    (hguard : w.guard = none) : Balanced s a c (.word i w) := by
  intro o
  rw [howes, hguard, Nat.add_comm]
  exact Nat.add_le_add_right (Nat.zero_le _) _

theorem Purpose.owes_next (p : Purpose) (i : Fin n) : (p.next i).owes = none := by
  cases p <;> rfl

theorem Query.owes_answer (q : Query n) (sum : ℕ) : (q.answer sum).owes = none := by
  cases q <;> simp only [Query.answer] <;> split_ifs <;> first | rfl | exact Purpose.owes_next _ _

theorem Entry.owes_pc (x : Entry n) : x.pc.owes = none := by
  cases x <;> rfl

theorem Pc.owes_passFrom (o : Octile) (k : ℕ) (published : Bool) :
    (Pc.passFrom (n := n) o k published).owes = none := by
  unfold Pc.passFrom
  split_ifs <;> rfl

theorem Exit.owes_pc (x : Exit n) : x.pc.owes = none := by
  cases x with
  | scavenged d =>
    cases d with
    | pass o published => exact Pc.owes_passFrom o 0 published
    | _ => rfl
  | cancelled d => cases d <;> rfl
  | pass o k published => exact Pc.owes_passFrom o k published
  | throw published => cases published <;> rfl
  | _ => rfl

theorem Pc.owes_returned (published : Bool) : (Pc.returned (n := n) published).owes = none := by
  cases published <;> rfl

theorem balanced_attach (hs : Inv s) (ha : s.Live a) {i : Fin n} {o : Octile}
    {previous : Option Octile} (hpc : s.pc a = .acquireAdded i o previous) :
    Balanced s a (.attached i o previous) (.word i ((s.slots i).attached o previous)) := by
  have howned := hs.owned a i ha (by rw [hpc]; rfl)
  rw [hpc] at howned
  have howes : (Pc.attached i o previous).owes = previous := by cases previous <;> rfl
  intro o'
  rw [howes, hpc, howned.guard.2, Nat.add_comm]
  exact le_rfl

theorem balanced_clearGuard (hs : Inv s) (ha : s.Live a) {i : Fin n} {guard : Option Octile}
    {mode : Release} {p : Purpose} (hpc : s.pc a = .clearGuard i guard mode p) :
    Balanced s a (.clearPending i guard mode p) (.word i ((s.slots i).withGuard 0 false)) := by
  have hclears := hs.clears a i ha (by rw [hpc]; rfl)
  rw [hpc] at hclears
  obtain ⟨rfl, -⟩ := hclears
  by_cases hmode : mode = .paired
  · exact balanced_take (if_pos hmode) rfl
  · intro o
    rw [show (Pc.clearPending i (s.slots i).guard mode p).owes = none from if_neg hmode]
    exact Nat.zero_le _

theorem balanced_clearPending (hs : Inv s) (ha : s.Live a) {i : Fin n} {guard : Option Octile}
    {mode : Release} {p : Purpose} (hpc : s.pc a = .clearPending i guard mode p)
    (h : s.clearPendingStep i mode p guard = (e, c)) : Balanced s a c e := by
  have hclears := hs.clears a i ha (by rw [hpc]; rfl)
  rw [hpc] at hclears
  cases guard with
  | none =>
    cases h
    exact balanced_word (p.owes_next i) rfl
  | some o =>
    cases mode with
    | none =>
      cases h
      exact balanced_word (p.owes_next i) rfl
    | paired =>
      cases h
      intro o'
      rw [hpc]
      exact le_rfl
    | unpaired => cases hclears.2 rfl

theorem balanced (hs : Inv s) (ha : s.Live a) {ch : Choice} (h : s.next a ch = some (e, c)) :
    Balanced s a c e := by
  unfold State.next at h
  cases hpc : s.pc a
  all_goals simp only [hpc] at h
  case idle | owns | writer => cases h
  case wait x =>
    split_ifs at h
    cases h
    exact x.owes_pc
  case leave x =>
    cases h
    exact x.owes_pc
  case acquire i o allowEvicted =>
    simp only [State.acquireStep] at h
    split_ifs at h
    all_goals cases h
    · rfl
    · exact balanced_word rfl rfl
    · rfl
    · rfl
    · rfl
  case acquireAdded i o previous =>
    cases h
    exact balanced_attach hs ha hpc
  case acquireMoved i o p | released i o | doneCount i o | evictCount o i guard published =>
    cases h
    exact ⟨by rw [hpc]; rfl, rfl⟩
  case release i =>
    simp only [State.releaseStep] at h
    split_ifs at h with hstop hok
    all_goals cases h
    · rfl
    · simp only [Bool.and_eq_true] at hok
      exact balanced_take (ReaderState.guard_of_present hok.1.2).symm rfl
    · rfl
    · rfl
  case settle i o r | copying i o | donePending i o | doneRequest i | retireFlags i
  | retireStatus i | orphanStatus i d | orphanFlags i d | unrequest o i published
  | request o i published =>
    cases h
    exact balanced_word rfl rfl
  case copy i =>
    simp only [State.copyStep] at h
    split_ifs at h
    all_goals cases h
    · rfl
    · rfl
    · rfl
    · rfl
    · exact balanced_word rfl rfl
  case done i =>
    split_ifs at h with hok
    all_goals cases h
    · simp only [Bool.and_eq_true] at hok
      exact balanced_take (ReaderState.guard_of_present hok.2).symm rfl
    · rfl
  case clearGuard i guard mode p =>
    cases h
    exact balanced_clearGuard hs ha hpc
  case clearPending i guard mode p => exact balanced_clearPending hs ha hpc (Option.some.inj h)
  case clearCount i o p =>
    cases h
    exact ⟨by rw [hpc]; rfl, p.owes_next i⟩
  case unpaired i o p | unpairedSwap i o access p =>
    split_ifs at h
    all_goals cases h
    · exact p.owes_next i
    · rfl
  case count q k sum =>
    split_ifs at h
    · simp only [State.countStep] at h
      split_ifs at h <;> cases h <;> rfl
    · cases h
      exact q.owes_answer sum
  case admitStore i w =>
    have hclears := hs.clears a i ha (by rw [hpc]; rfl)
    rw [hpc] at hclears
    cases h
    intro o
    rw [show (w.clearFlags.withStatus .active).guard = none from hclears.1]
    exact Nat.zero_le _
  case scavenge k d =>
    split_ifs at h
    · simp only [State.scavengeStep] at h
      split_ifs at h <;> cases h <;> rfl
    · cases h
      rfl
  case cancel k d =>
    split_ifs at h
    all_goals cases h
    · exact balanced_word rfl rfl
    · rfl
  case blocked o published | recheck o published =>
    split_ifs at h
    all_goals cases h
    · exact Pc.owes_returned published
    · rfl
  case eligible o i published =>
    simp only [State.eligibleStep] at h
    split_ifs at h <;> cases h <;> rfl
  case evict o i published =>
    simp only [State.evictStep] at h
    split_ifs at h with hok
    all_goals cases h
    · simp only [Bool.and_eq_true, eligible] at hok
      exact balanced_take (ReaderState.guard_of_present hok.1.1.1.1.2).symm rfl
    · rfl
  -- the other steps write no word and leave nothing owed
  all_goals
    first | split_ifs at h | skip
    all_goals
      cases h
      rfl

theorem Counted.call (hc : Counted s) (ha : s.Live a) {d : Call} (h : s.call a d = some (e, c)) :
    Counted ((s.apply a e).goto a c) := by
  have howes : c.owes = none := by
    cases call_cases h with
    | reader hpc hstart => cases hstart <;> rfl
    | _ => rfl
  cases call_cases h <;> exact hc.move ha howes fun _ _ => (nomatch ·)

end

theorem Counted.die {s : State n} (hc : Counted s) (p : Process) :
    Counted { s with exited := insert p s.exited } := by
  intro o
  refine (hc o).anti ?_
  rintro (i | a) hmem
  · exact hmem
  · exact ⟨fun hexited => hmem.1 (Finset.mem_insert_of_mem hexited), hmem.2⟩

theorem Counted.step {s t : State n} {act : Action} (hs : Inv s) (hc : Counted s)
    (hharmless : Harmless s act) (h : (machine n).step s act = some t) : Counted t := by
  cases step_cases h with
  | call ha hcall => exact hc.call ha hcall
  | @advance a ch e c ha hnext =>
    refine hc.move ha (balanced hs ha hnext) ?_
    rintro o count rfl
    exact hharmless o count c hnext
  | exit p => exact hc.die p

/-- As long as recoveries are harmless, the counts cover their holders. -/
theorem reachable_counted {s : State n} (h : (machine n).ReachableUnder Harmless s) : Counted s :=
  h.invariant (fun _ h0 => h0 ▸ counted_initial)
    fun _ _ _ hreach hc hharmless hstep => hc.step (reachable_inv hreach.reachable) hharmless hstep

end Sintra.Ring.Guards
