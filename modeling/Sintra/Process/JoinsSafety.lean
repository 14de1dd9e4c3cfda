import Sintra.Lib.Updates
import Sintra.Process.Joins

/-!
# Joins are booked both ways, and groups know their members
-/

set_option linter.unusedSectionVars false

namespace Sintra.Process.Joins

open Function Updates State Machine Option

open Coordinator (Instance mprocId allProcesses externalProcesses)
open Registry (makeInstanceId makeInstanceId_inj)

/-! ### Orderly steps -/

variable {κ : Type*} [DecidableEq κ]

/-- A join whose spawn has failed finds its branch not booked by another, and its process in no group
but the standard ones. -/
def Orderly (s : State κ) : Action κ → Prop
  | .rollback th => ∀ c ∈ s.calls th, (∀ q ∈ s.inflightJoins c.branch, q = c.process) ∧
      ∀ i ∈ (s.tables.entries c.process).getD ∅, ∃ n ∈ Tables.standard,
        (s.tables.groups n).map Prod.fst = some i
  | _ => True

instance (s : State κ) (a : Action κ) : Decidable (Orderly s a) := by
  cases a <;> unfold Orderly <;> infer_instance

/-- The bookings are inverse to each other, and so are groups and entries. A call knows the branch its
process is booked under, and the process is its own. -/
structure Inv (s : State κ) : Prop where
  tables : s.tables.Ok s.drawn
  inverse : ∀ b p, s.inflightJoins b = some p ↔ s.joinedProcessBranch p = some b
  booked : ∀ p b, s.joinedProcessBranch p = some b → p < s.processIndexCounter
  branch : ∀ th c b, s.calls th = some c → s.joinedProcessBranch c.process = some b → b = c.branch
  numbered : ∀ th c, s.calls th = some c → c.process < s.processIndexCounter
  distinct : ∀ th th' c c', s.calls th = some c → s.calls th' = some c' → c.process = c'.process →
    th = th'

section

variable {s t : State κ} {th : κ} {c : Call}

/-- A call goes on under its process and branch, or ends. -/
theorem Inv.setCall (h : Inv s) (hc : s.calls th = some c) (c' : Option Call)
    (hc' : ∀ d, c' = some d → d.process = c.process ∧ d.branch = c.branch) :
    Inv (s.setCall th c') := by
  have hcalls : ∀ x d, (s.setCall th c').calls x = some d →
      ∃ d₀, s.calls x = some d₀ ∧ d.process = d₀.process ∧ d.branch = d₀.branch := by
    intro x d hd
    obtain ⟨rfl, hnew⟩ | ⟨-, hold⟩ := update_cases hd
    · exact ⟨c, hc, hc' d hnew⟩
    · exact ⟨d, hold, rfl, rfl⟩
  refine ⟨h.tables, h.inverse, h.booked, fun x d b hd hb => ?_, fun x d hd => ?_,
    fun x y d d' hd hd' heq => ?_⟩
  · obtain ⟨d₀, hd₀, hp, hbranch⟩ := hcalls x d hd
    rw [hbranch]
    exact h.branch x d₀ b hd₀ (hp ▸ hb)
  all_goals obtain ⟨d₀, hd₀, hp, -⟩ := hcalls x d hd
  · rw [hp]
    exact h.numbered x d₀ hd₀
  · obtain ⟨d₁, hd₁, hp', -⟩ := hcalls y d' hd'
    exact h.distinct x y d₀ d₁ hd₀ hd₁ (by rw [← hp, ← hp', heq])

variable {p : InstanceId}

/-- A booking is erased: the branch was not booked by another process, nor the process under another
branch. -/
theorem Inv.erase (h : Inv s) {b : ℤ} (hb : ∀ q, s.inflightJoins b = some q → q = p)
    (hp : ∀ b', s.joinedProcessBranch p = some b' → b' = b) :
    Inv { s with
      inflightJoins := update s.inflightJoins b none
      joinedProcessBranch := update s.joinedProcessBranch p none } := by
  have hjoined : ∀ q b', update s.joinedProcessBranch p none q = some b' →
      q ≠ p ∧ s.joinedProcessBranch q = some b' := by
    intro q b' hq
    obtain ⟨-, hnew⟩ | hold := update_cases hq
    · cases hnew
    · exact hold
  refine ⟨h.tables, fun b' q => ?_, fun q b' hq => h.booked q b' (hjoined q b' hq).2,
    fun x d b' hd hq => h.branch x d b' hd (hjoined _ _ hq).2, h.numbered, h.distinct⟩
  constructor
  · intro hq
    obtain ⟨-, hnew⟩ | ⟨hb', hold⟩ := update_cases hq
    · cases hnew
    · rw [h.inverse] at hold
      have hqp : q ≠ p := by
        rintro rfl
        exact hb' (hp b' hold)
      exact (update_of_ne hqp _ _).trans hold
  · intro hq
    obtain ⟨hqp, hbooked⟩ := hjoined q b' hq
    have hb' : b' ≠ b := by
      intro heq
      exact hqp (hb q (heq ▸ (h.inverse b' q).2 hbooked))
    exact (update_of_ne hb' _ _).trans ((h.inverse b' q).2 hbooked)

theorem Inv.eraseJoin (h : Inv s) (p : InstanceId) : Inv (s.eraseJoin p) := by
  unfold State.eraseJoin
  split
  · exact h
  · next b hb =>
      refine h.erase (fun q hq => ?_) fun b' hb' => ?_
      · rw [h.inverse] at hq
        exact some.inj (((h.inverse b q).2 hq).symm.trans ((h.inverse b p).2 hb))
      · exact mem_unique hb' hb

theorem eraseJoin_tables (s : State κ) (p : InstanceId) :
    (s.eraseJoin p).tables = s.tables ∧ (s.eraseJoin p).drawn = s.drawn ∧
      (s.eraseJoin p).calls = s.calls := by
  unfold eraseJoin
  split <;> exact ⟨rfl, rfl, rfl⟩

theorem Inv.joinSwarm (h : Inv s) {branch : ℤ} (hstep : s.joinSwarm th branch = some t) : Inv t := by
  unfold State.joinSwarm at hstep
  rw [ite_none_left_eq_some] at hstep
  obtain ⟨hidle, hstep⟩ := hstep
  by_cases hrefused : s.teardownAdmissionClosed ∨ branch < 1 ∨ Invitations.maxProcessIndex ≤ branch
  · rw [if_pos hrefused] at hstep
    exact some.inj hstep ▸ h
  rw [if_neg hrefused] at hstep
  by_cases hfull : Invitations.maxProcessIndex ≤ s.registered.card + s.initializing.card
  · rw [if_pos hfull] at hstep
    exact some.inj hstep ▸ h
  rw [if_neg hfull] at hstep
  by_cases hpending : (s.inflightJoins branch).isSome
  · rw [if_pos hpending] at hstep
    exact some.inj hstep ▸ h
  rw [if_neg hpending] at hstep
  by_cases hused : Invitations.maxProcessIndex < s.processIndexCounter
  · rw [if_pos hused] at hstep
    cases hstep
    exact { h with
      booked := fun p b hp => Nat.lt_succ_of_lt (h.booked p b hp)
      numbered := fun th c hc => Nat.lt_succ_of_lt (h.numbered th c hc) }
  rw [if_neg hused] at hstep
  cases hstep
  -- The number was not given out before, so nothing is known of the process.
  have hnew : s.joinedProcessBranch s.processIndexCounter = none := by
    cases hb : s.joinedProcessBranch s.processIndexCounter with
    | none => rfl
    | some b => exact absurd (h.booked _ b hb) (Nat.lt_irrefl _)
  have hfree : s.inflightJoins branch = none := not_isSome_iff_eq_none.1 hpending
  have hjoined : ∀ q b, update s.joinedProcessBranch s.processIndexCounter
      (some ((s.joinedProcessBranch s.processIndexCounter).getD branch)) q = some b ↔
      q = s.processIndexCounter ∧ b = branch ∨
        q ≠ s.processIndexCounter ∧ s.joinedProcessBranch q = some b := by
    intro q b
    by_cases hq : q = s.processIndexCounter
    · rw [hq, update_self, hnew]
      simp [eq_comm]
    · simp [hq]
  refine ⟨h.tables, fun b q => ?_, fun q b hq => ?_, fun x d b hd hb => ?_, fun x d hd => ?_,
    fun x y d d' hd hd' heq => ?_⟩
  · refine Iff.trans ?_ (hjoined q b).symm
    obtain rfl | hb := eq_or_ne b branch
    · refine ⟨fun hq => ?_, ?_⟩
      · cases (update_self _ _ _).symm.trans hq
        exact .inl ⟨rfl, rfl⟩
      · rintro (⟨rfl, -⟩ | ⟨-, hq⟩)
        · exact update_self _ _ _
        · rw [← h.inverse, hfree] at hq
          cases hq
    · have haway : update s.inflightJoins branch (some s.processIndexCounter) b =
          s.inflightJoins b := update_of_ne hb _ _
      refine (Eq.congr_left haway).trans ?_
      rw [h.inverse]
      refine ⟨fun hq => .inr ⟨fun heq => ?_, hq⟩, ?_⟩
      · rw [heq, hnew] at hq
        cases hq
      · rintro (⟨-, heq⟩ | ⟨-, hq⟩)
        · exact absurd heq hb
        · exact hq
  · obtain ⟨rfl, -⟩ | ⟨-, hq⟩ := (hjoined q b).1 hq
    · exact Nat.lt_succ_self _
    · exact Nat.lt_succ_of_lt (h.booked q b hq)
  · obtain ⟨-, ⟨⟩⟩ | ⟨-, hd⟩ := update_cases hd
    · obtain ⟨-, hb⟩ | ⟨hne, -⟩ := (hjoined _ b).1 hb
      · exact hb
      · exact absurd rfl hne
    · obtain ⟨hq, -⟩ | ⟨-, hb⟩ := (hjoined _ b).1 hb
      · exact absurd hq (Nat.ne_of_lt (h.numbered x d hd))
      · exact h.branch x d b hd hb
  · obtain ⟨-, ⟨⟩⟩ | ⟨-, hd⟩ := update_cases hd
    · exact Nat.lt_succ_self _
    · exact Nat.lt_succ_of_lt (h.numbered x d hd)
  · obtain ⟨hx, ⟨⟩⟩ | ⟨-, hold⟩ := update_cases hd <;>
      obtain ⟨hy, ⟨⟩⟩ | ⟨-, hold'⟩ := update_cases hd'
    · rw [hx, hy]
    · exact absurd heq.symm (Nat.ne_of_lt (h.numbered y d' hold'))
    · exact absurd heq (Nat.ne_of_lt (h.numbered x d hold))
    · exact h.distinct x y d d' hold hold' heq

/-- A process that is only in standard groups is expelled from all of its groups. -/
theorem expel_standard (h : Inv s) (hp : ∀ i ∈ (s.tables.entries p).getD ∅, ∃ n ∈ Tables.standard,
      (s.tables.groups n).map Prod.fst = some i) :
    s.tables.expel Tables.standard p = s.tables.forget p := by
  refine Memberships.expel_eq_forget fun n i ps hn hmem => ?_
  rw [h.tables.memberships.mem_iff hn] at hmem
  obtain ⟨n', hn', hid⟩ := hp i hmem
  obtain ⟨⟨i', ps'⟩, hgroup, rfl⟩ := map_eq_some_iff.1 hid
  rwa [h.tables.memberships.distinct n n' i' ps ps' hn hgroup]

theorem Inv.rollback (h : Inv s) (hc : s.calls th = some c)
    (hb : ∀ q, s.inflightJoins c.branch = some q → q = c.process)
    (hp : ∀ i ∈ (s.tables.entries c.process).getD ∅, ∃ n ∈ Tables.standard,
      (s.tables.groups n).map Prod.fst = some i) : Inv (s.rollback th c) := by
  have herase := h.erase hb fun b' hb' => h.branch th c b' hc hb'
  have htables : Inv { s with
      tables := s.tables.expel Tables.standard c.process
      inflightJoins := update s.inflightJoins c.branch none
      joinedProcessBranch := update s.joinedProcessBranch c.process none } := by
    refine { herase with tables := ?_ }
    rw [expel_standard h hp]
    exact h.tables.forget c.process
  exact htables.setCall hc none nofun

theorem inPhase_eq_some {phase : Phase} {f : Call → State κ} (h : s.inPhase th phase f = some t) :
    ∃ c, s.calls th = some c ∧ c.phase = phase ∧ t = f c := by
  obtain ⟨c, hc, h⟩ := bind_eq_some_iff.1 h
  rw [ite_none_right_eq_some, some.injEq] at h
  exact ⟨c, hc, h.1, h.2.symm⟩

theorem Inv.step (h : Inv s) {a : Action κ} (ha : Orderly s a) (hstep : s.step a = some t) :
    Inv t := by
  cases a with
  | joinSwarm th branch => exact h.joinSwarm hstep
  | addToGroups th =>
    obtain ⟨c, hc, -, rfl⟩ := inPhase_eq_some hstep
    have htables : Inv { s with
        tables := (s.tables.join allProcesses c.process).join externalProcesses c.process
        admission := none } :=
      { h with tables := (h.tables.join _ _).join _ _ }
    refine htables.setCall hc _ fun d hd => ?_
    cases hd
    exact ⟨rfl, rfl⟩
  | spawned th outcome =>
    obtain ⟨c, hc, -, rfl⟩ := inPhase_eq_some hstep
    cases outcome with
    | success =>
      have hreg : Inv { s with registered := insert c.process s.registered } := { h with }
      exact hreg.setCall hc none nofun
    | failure =>
      refine h.setCall hc _ fun d hd => ?_
      cases hd
      exact ⟨rfl, rfl⟩
    | exception => exact h.setCall hc none nofun
  | throws th =>
    obtain ⟨c, hc, -, rfl⟩ := inPhase_eq_some hstep
    exact { h.setCall hc none nofun with }
  | rollback th =>
    obtain ⟨c, hc, -, rfl⟩ := inPhase_eq_some hstep
    obtain ⟨hb, hp⟩ := ha c hc
    exact h.rollback hc hb hp
  | beginInitialization p | register p =>
    cases hstep
    exact { h with }
  | markInitializationComplete p =>
    cases hstep
    exact { h.eraseJoin p with }
  | unpublish p =>
    rw [State.step, Option.ite_none_right_eq_some, Option.some.injEq] at hstep
    obtain ⟨-, rfl⟩ := hstep
    refine { h.eraseJoin p with tables := ?_ }
    change Tables.Ok (s.tables.forget p) (s.eraseJoin p).drawn
    rw [(eraseJoin_tables s p).2.1]
    exact h.tables.forget p
  | makeProcessGroup name members published =>
    cases hstep
    exact { h with tables := (Tables.makeProcessGroup_spec h.tables name members published rfl).2 }
  | claim p publishedAll publishedExternal =>
    rw [State.step, Option.ite_none_left_eq_some] at hstep
    obtain ⟨-, hstep⟩ := hstep
    split at hstep
    · exact some.inj hstep ▸ h
    · cases hstep
      have hspec := Tables.addExternalProcessToStandardGroups_spec h.tables p publishedAll
        publishedExternal rfl
      exact { h with tables := hspec.2.1 }
  | closeAdmission =>
    rw [State.step, Option.ite_none_left_eq_some, Option.some.injEq] at hstep
    obtain ⟨-, rfl⟩ := hstep
    exact { h with }

theorem reachable_inv (h : (machine κ).ReachableUnder Orderly s) : Inv s := by
  refine h.invariant ?_ fun s a t _ hinv ha hstep => hinv.step ha hstep
  rintro s rfl
  exact ⟨Tables.ok_empty, fun b p => ⟨nofun, nofun⟩, fun _ _ => nofun, fun _ _ _ => nofun,
    fun _ _ => nofun, fun _ _ _ _ => nofun⟩

/-! ### The end of a call -/

/-- What is booked of the process, and its groups, are as they were. -/
structure Untouched (s t : State κ) (q : InstanceId) : Prop where
  inflight : ∀ b, t.inflightJoins b = some q ↔ s.inflightJoins b = some q
  joined : t.joinedProcessBranch q = s.joinedProcessBranch q
  entry : t.tables.entries q = s.tables.entries q
  groups : ∀ n, ((t.tables.groups n).any fun g => q ∈ g.2) = ((s.tables.groups n).any fun g => q ∈ g.2)

/-- Nothing is booked of the process, and it is in no group. -/
structure Absent (t : State κ) (q : InstanceId) : Prop where
  inflight : ∀ b, t.inflightJoins b ≠ some q
  joined : t.joinedProcessBranch q = none
  entry : t.tables.entries q = none
  groups : ∀ n i ps, t.tables.groups n = some (i, ps) → q ∉ ps

theorem calls_setCall_self (s : State κ) (th : κ) (d : Option Call) :
    (s.setCall th d).calls th = d := update_self _ _ _

theorem calls_setCall_of_ne {x : κ} (hx : x ≠ th) (d : Option Call) :
    (s.setCall th d).calls x = s.calls x := update_of_ne hx _ _

/-- A call that ends takes something back only if its spawn has failed. -/
theorem ends_cases {a : Action κ} (hc : s.calls th = some c) (hstep : s.step a = some t)
    (hend : t.calls th = none) :
    c.phase ≠ .failed ∧ (t.tables = s.tables ∧ t.inflightJoins = s.inflightJoins ∧
        t.joinedProcessBranch = s.joinedProcessBranch) ∨
      c.phase = .failed ∧ a = .rollback th ∧ t = s.rollback th c := by
  have hgone : ∀ {t' : State κ}, t'.calls = s.calls → t'.calls th ≠ none := fun heq => by
    rw [heq, hc]
    exact nofun
  -- A call in a phase is this one, unless the step leaves this one alone.
  have hown : ∀ {x : κ} {c' : Call} {t' : State κ} {d : Option Call}, s.calls x = some c' →
      t'.calls = update s.calls x d → t'.calls th = none → x = th ∧ c' = c := by
    intro x c' t' d hc' heq hnone
    obtain rfl | hx := eq_or_ne th x
    · exact ⟨rfl, mem_unique hc' hc⟩
    · rw [heq, update_of_ne hx, hc] at hnone
      cases hnone
  cases a with
  | joinSwarm x branch =>
    change s.joinSwarm x branch = some t at hstep
    unfold joinSwarm at hstep
    rw [ite_none_left_eq_some] at hstep
    obtain ⟨hidle, hstep⟩ := hstep
    simp only [not_or, not_isSome_iff_eq_none] at hidle
    have hx : th ≠ x := by
      rintro rfl
      cases hidle.1.symm.trans hc
    refine absurd hend ?_
    dsimp only at hstep
    split_ifs at hstep <;> cases hstep
    · exact hgone rfl
    · exact hgone rfl
    · exact hgone rfl
    · exact hgone rfl
    · rw [calls_setCall_of_ne hx, hc]
      exact nofun
  | addToGroups x =>
    obtain ⟨c', hc', hphase, rfl⟩ := inPhase_eq_some hstep
    obtain ⟨rfl, rfl⟩ := hown hc' rfl hend
    cases (update_self _ _ _).symm.trans hend
  | spawned x outcome =>
    obtain ⟨c', hc', hphase, rfl⟩ := inPhase_eq_some hstep
    cases outcome with
    | success | exception =>
      obtain ⟨rfl, rfl⟩ := hown hc' rfl hend
      exact .inl ⟨by rw [hphase]; exact nofun, rfl, rfl, rfl⟩
    | failure =>
      obtain ⟨rfl, rfl⟩ := hown hc' rfl hend
      cases (update_self _ _ _).symm.trans hend
  | throws x =>
    obtain ⟨c', hc', hphase, rfl⟩ := inPhase_eq_some hstep
    obtain ⟨rfl, rfl⟩ := hown hc' rfl hend
    exact .inl ⟨by rw [hphase]; exact nofun, rfl, rfl, rfl⟩
  | rollback x =>
    obtain ⟨c', hc', hphase, rfl⟩ := inPhase_eq_some hstep
    obtain ⟨rfl, rfl⟩ := hown hc' rfl hend
    exact .inr ⟨hphase, rfl, rfl⟩
  | beginInitialization p | register p | makeProcessGroup name members published =>
    cases hstep
    exact absurd hend (hgone rfl)
  | markInitializationComplete p =>
    cases hstep
    exact absurd hend (hgone (eraseJoin_tables s p).2.2)
  | unpublish p =>
    rw [State.step, Option.ite_none_right_eq_some, Option.some.injEq] at hstep
    obtain ⟨-, rfl⟩ := hstep
    exact absurd hend (hgone (eraseJoin_tables s p).2.2)
  | claim p publishedAll publishedExternal =>
    rw [State.step, Option.ite_none_left_eq_some] at hstep
    obtain ⟨-, hstep⟩ := hstep
    split at hstep <;> obtain rfl := some.inj hstep <;> exact absurd hend (hgone rfl)
  | closeAdmission =>
    rw [State.step, Option.ite_none_left_eq_some, Option.some.injEq] at hstep
    obtain ⟨-, rfl⟩ := hstep
    exact absurd hend (hgone rfl)

theorem any_expel {m : Tables} {ns : List String} {q : InstanceId} (hq : q ≠ p) (n : String) :
    (((m.expel ns p).groups n).any fun g => q ∈ g.2) = ((m.groups n).any fun g => q ∈ g.2) := by
  unfold Memberships.expel
  dsimp only
  split
  · cases m.groups n with
    | none => rfl
    | some g => simp [hq]
  · rfl

theorem rollback_untouched (hb : ∀ q, s.inflightJoins c.branch = some q → q = c.process)
    {q : InstanceId} (hq : q ≠ c.process) : Untouched s (s.rollback th c) q where
  inflight b := by
    change update s.inflightJoins c.branch none b = some q ↔ _
    by_cases hbranch : b = c.branch
    · rw [hbranch, update_self]
      exact ⟨nofun, fun h => absurd (hb q h) hq⟩
    · rw [update_of_ne hbranch]
  joined := update_of_ne hq _ _
  entry := update_of_ne hq _ _
  groups := any_expel hq

theorem rollback_absent (h : Inv s) (hc : s.calls th = some c)
    (hp : ∀ i ∈ (s.tables.entries c.process).getD ∅, ∃ n ∈ Tables.standard,
      (s.tables.groups n).map Prod.fst = some i) : Absent (s.rollback th c) c.process where
  inflight b := by
    change update s.inflightJoins c.branch none b ≠ _
    by_cases hbranch : b = c.branch
    · rw [hbranch, update_self]
      exact nofun
    · rw [update_of_ne hbranch, ne_eq, h.inverse]
      exact fun hb => hbranch (h.branch th c b hc hb)
  joined := update_self _ _ _
  entry := update_self _ _ _
  groups n i ps hn := by
    change (s.tables.expel Tables.standard c.process).groups n = some (i, ps) at hn
    rw [expel_standard h hp] at hn
    obtain ⟨ps', -, rfl⟩ := Memberships.mem_forget_groups.1 hn
    exact Finset.notMem_erase c.process ps'

/-- **Joins are booked both ways.** In every run of orderly steps the two bookings are inverse to each
other. A call that ends leaves alone what is booked of other processes, and their groups, those of
other calls among them; and when its spawn has failed nothing is left of its own. -/
theorem joins_booked (h : (machine κ).ReachableUnder Orderly s) :
    (∀ b p, s.inflightJoins b = some p ↔ s.joinedProcessBranch p = some b) ∧
    ∀ th c, s.calls th = some c →
      (∀ th' c', th' ≠ th → s.calls th' = some c' → c'.process ≠ c.process) ∧
      ∀ a t, Orderly s a → (machine κ).step s a = some t → t.calls th = none →
        (∀ q, q ≠ c.process → Untouched s t q) ∧ (c.phase = .failed → Absent t c.process) := by
  have hinv := reachable_inv h
  refine ⟨hinv.inverse, fun th c hc => ⟨fun th' c' hne hc' heq => ?_, fun a t ha hstep hend => ?_⟩⟩
  · exact hne (hinv.distinct th' th c' c hc' hc heq)
  · obtain ⟨hphase, htables, hinflight, hjoined⟩ | ⟨-, rfl, rfl⟩ := ends_cases hc hstep hend
    · refine ⟨fun q _ => ⟨fun b => ?_, ?_, ?_, fun n => ?_⟩, fun hfailed => absurd hfailed hphase⟩
      · rw [hinflight]
      · rw [hjoined]
      · rw [htables]
      · rw [htables]
    · obtain ⟨hb, hp⟩ := ha c hc
      exact ⟨fun q hq => rollback_untouched hb hq, fun _ => rollback_absent hinv hc hp⟩

end

/-- The standard groups are made, and a process is spawned for branch 1. -/
def spawning : List (Action Unit) :=
  [.makeProcessGroup allProcesses {mprocId} true, .makeProcessGroup externalProcesses ∅ true,
    .joinSwarm () 1, .addToGroups ()]

/-- A call that ends by an exception leaves its booking and its memberships behind. -/
theorem throwing_join_stays : ∃ s t : State Unit, (machine Unit).Reachable s ∧
    (machine Unit).step s (.spawned () .exception) = some t ∧
    ∃ c, s.calls () = some c ∧ t.calls () = none ∧ t.inflightJoins c.branch = some c.process ∧
      t.joinedProcessBranch c.process = some c.branch ∧
      ∃ i ps, t.tables.groups allProcesses = some (i, ps) ∧ c.process ∈ ps := by
  obtain ⟨s, hreach, hc, hb, hp, hg⟩ : ∃ s : State Unit, (machine Unit).Reachable s ∧
      s.calls () = some ⟨3, 1, .spawning⟩ ∧ s.inflightJoins 1 = some 3 ∧
      s.joinedProcessBranch 3 = some 1 ∧
      s.tables.groups allProcesses = some (makeInstanceId 0, {2, 3}) :=
    exists_reachable_of_exec spawning rfl (by decide +kernel)
  refine ⟨s, s.setCall () none, hreach, ?_, ⟨3, 1, .spawning⟩, hc, calls_setCall_self _ _ _, hb, hp,
    _, _, hg, by decide⟩
  change s.inPhase () .spawning (fun c => s.spawned () c .exception) = _
  rw [inPhase, hc]
  rfl

/-- A spawn that fails and is taken back, next to a join of another branch. -/
theorem joins_booked_failure : ∃ s t : State Bool, (machine Bool).ReachableUnder Orderly s ∧
    (machine Bool).step s (.rollback false) = some t ∧ Absent t 3 ∧ Untouched s t 4 := by
  obtain ⟨s, hunder, hc, ha⟩ : ∃ s : State Bool, (machine Bool).ReachableUnder Orderly s ∧
      s.calls false = some ⟨3, 1, .failed⟩ ∧ Orderly s (.rollback false) :=
    exists_reachableUnder_of_exec
      [.makeProcessGroup allProcesses {mprocId} true, .joinSwarm false 1, .addToGroups false,
        .joinSwarm true 2, .addToGroups true, .spawned false .failure] rfl (by decide +kernel)
  have hstep : (machine Bool).step s (.rollback false) = some (s.rollback false ⟨3, 1, .failed⟩) := by
    change s.inPhase false .failed (s.rollback false) = _
    rw [inPhase, hc]
    rfl
  obtain ⟨-, hends⟩ := (joins_booked hunder).2 false _ hc
  obtain ⟨huntouched, habsent⟩ := hends _ _ ha hstep (calls_setCall_self _ _ _)
  exact ⟨s, _, hunder, hstep, habsent rfl, huntouched 4 (by decide)⟩

/-! ### Groups and processes -/

/-- **Groups know their members.** In every run of orderly steps a process is a member of a group exactly
if the group is in the entry of the process, and no entry is empty; a group that cannot be made, and a
claim that fails for a process in no group, leave both sides as they were. -/
theorem groups_agree {s : State κ} (h : (machine κ).ReachableUnder Orderly s) :
    (∀ n i ps p, s.tables.groups n = some (i, ps) →
      (p ∈ ps ↔ ∃ l, s.tables.entries p = some l ∧ i ∈ l)) ∧
    (∀ p, s.tables.entries p ≠ some ∅) ∧
    (∀ name members published,
      (s.tables.makeProcessGroup name members (makeInstanceId s.drawn) published).1 = none →
        (s.makeProcessGroup name members published).tables = s.tables) ∧
    (∀ p publishedAll publishedExternal, s.tables.entries p = none →
      (s.tables.addExternalProcessToStandardGroups p s.drawn publishedAll publishedExternal).1 = false →
        (s.claim p publishedAll publishedExternal).tables = s.tables) := by
  have hinv := reachable_inv h
  refine ⟨fun n i ps p hn => ?_, hinv.tables.memberships.nonempty, fun name members published => ?_,
    fun p publishedAll publishedExternal hp hfail => ?_⟩
  · rw [hinv.tables.memberships.mem_iff hn]
    cases s.tables.entries p with
    | none =>
      refine ⟨fun hi => absurd hi (Finset.notMem_empty i), ?_⟩
      rintro ⟨l, hl, -⟩
      cases hl
    | some l =>
      refine ⟨fun hi => ⟨l, rfl, hi⟩, ?_⟩
      rintro ⟨l', hl, hi⟩
      cases hl
      exact hi
  · exact (Tables.makeProcessGroup_spec hinv.tables name members published rfl).1
  · exact (Tables.addExternalProcessToStandardGroups_spec hinv.tables p publishedAll publishedExternal
      rfl).1 hfail hp

/-- Another group is made with the process of a join whose spawn fails then. -/
def groupMadeDuringSpawn : List (Action Unit) :=
  spawning ++ [.makeProcessGroup "workers" {3} true, .spawned () .failure, .rollback ()]

/-- The process is still in the group, and has no entry any more. -/
theorem failed_join_splits_group : ∃ s : State Unit, (machine Unit).Reachable s ∧
    ∃ i ps, s.tables.groups "workers" = some (i, ps) ∧ 3 ∈ ps ∧ s.tables.entries 3 = none := by
  obtain ⟨s, hreach, hg, he⟩ : ∃ s : State Unit, (machine Unit).Reachable s ∧
      s.tables.groups "workers" = some (makeInstanceId 2, {3}) ∧ s.tables.entries 3 = none :=
    exists_reachable_of_exec groupMadeDuringSpawn rfl
      (by decide +kernel)
  exact ⟨s, hreach, _, _, hg, by decide, he⟩

/-- A process joins, and is a member of the standard groups on both sides. -/
theorem groups_agree_spawning : ∃ s : State Unit, (machine Unit).ReachableUnder Orderly s ∧
    ∃ i ps, s.tables.groups allProcesses = some (i, ps) ∧ 3 ∈ ps ∧
      ∃ l, s.tables.entries 3 = some l ∧ i ∈ l := by
  obtain ⟨s, hunder, hg⟩ : ∃ s : State Unit, (machine Unit).ReachableUnder Orderly s ∧
      s.tables.groups allProcesses = some (makeInstanceId 0, {2, 3}) :=
    exists_reachableUnder_of_exec spawning rfl (by decide +kernel)
  exact ⟨s, hunder, _, _, hg, by decide, ((groups_agree hunder).1 _ _ _ 3 hg).1 (by decide)⟩

end Sintra.Process.Joins
