import Mathlib

/-!
# A membership relation stored twice

Named groups have an id and members. Next to them each member has an entry with the ids of its groups;
a member of no group has none.

* `dissolve_create`, `leave_join` — what undoes what, exactly.
* `Ok.forget`, `expel_eq_forget` — a member is taken out of all groups; to take it out of named groups
  only and to drop its entry comes to the same if it is in no others.
-/

set_option linter.unusedSectionVars false

/-- Groups with an id and members, and the ids of the groups of each member. -/
structure Memberships (ν ι α : Type*) where
  groups : ν → Option (ι × Finset α)
  entries : α → Option (Finset ι)

namespace Memberships

open Function Option

variable {ν ι α : Type*} [DecidableEq ν] [DecidableEq ι] [DecidableEq α]

/-! ### Entries -/

/-- An entry gets an id. -/
def enterId (i : ι) (e : Option (Finset ι)) : Option (Finset ι) := some (insert i (e.getD ∅))

/-- An entry loses an id, and goes with its last one. -/
def eraseId (i : ι) : Option (Finset ι) → Option (Finset ι)
  | none => none
  | some l => if l.erase i = ∅ then none else some (l.erase i)

@[simp] theorem eraseId_some (i : ι) (l : Finset ι) :
    eraseId i (some l) = if l.erase i = ∅ then none else some (l.erase i) := rfl

variable {i j : ι} {e : Option (Finset ι)}

theorem mem_enterId : j ∈ (enterId i e).getD ∅ ↔ j = i ∨ j ∈ e.getD ∅ := Finset.mem_insert

theorem enterId_ne_empty : enterId i e ≠ some ∅ := fun h =>
  Finset.insert_ne_empty i _ (some.inj h)

theorem mem_eraseId : j ∈ (eraseId i e).getD ∅ ↔ j ≠ i ∧ j ∈ e.getD ∅ := by
  cases e with
  | none => simp [eraseId]
  | some l =>
    rw [eraseId_some, getD_some, ← Finset.mem_erase]
    split
    · next h => rw [h, getD_none]
    · rfl

theorem eraseId_ne_empty : eraseId i e ≠ some ∅ := by
  cases e with
  | none => exact nofun
  | some l =>
    rw [eraseId_some]
    split
    · exact nofun
    · next h => exact fun heq => h (some.inj heq)

theorem eraseId_enterId (hi : i ∉ e.getD ∅) (he : e ≠ some ∅) : eraseId i (enterId i e) = e := by
  rw [enterId, eraseId_some, Finset.erase_insert hi]
  cases e with
  | none => rw [getD_none, if_pos rfl]
  | some l =>
    rw [getD_some, if_neg]
    exact fun h => he (congrArg some h)

/-! ### Operations -/

/-- The id is entered for each of the members. -/
def record (m : Memberships ν ι α) (ps : Finset α) (i : ι) : Memberships ν ι α :=
  { m with entries := fun p => if p ∈ ps then enterId i (m.entries p) else m.entries p }

/-- The id is erased for each of the members. -/
def unrecord (m : Memberships ν ι α) (ps : Finset α) (i : ι) : Memberships ν ι α :=
  { m with entries := fun p => if p ∈ ps then eraseId i (m.entries p) else m.entries p }

def setGroup (m : Memberships ν ι α) (n : ν) (g : Option (ι × Finset α)) : Memberships ν ι α :=
  { m with groups := update m.groups n g }

/-- A new group. -/
def create (m : Memberships ν ι α) (n : ν) (i : ι) (ps : Finset α) : Memberships ν ι α :=
  (m.record ps i).setGroup n (some (i, ps))

/-- A group and its memberships are gone. -/
def dissolve (m : Memberships ν ι α) (n : ν) : Memberships ν ι α :=
  match m.groups n with
  | none => m
  | some (i, ps) => (m.unrecord ps i).setGroup n none

/-- A member joins a group, if there is one. -/
def join (m : Memberships ν ι α) (n : ν) (p : α) : Memberships ν ι α :=
  match m.groups n with
  | none => m
  | some (i, ps) => (m.record {p} i).setGroup n (some (i, insert p ps))

/-- A member leaves a group, if there is one. -/
def leave (m : Memberships ν ι α) (n : ν) (p : α) : Memberships ν ι α :=
  match m.groups n with
  | none => m
  | some (i, ps) => (m.unrecord {p} i).setGroup n (some (i, ps.erase p))

/-- A member leaves the named groups, and its entry goes. -/
def expel (m : Memberships ν ι α) (ns : List ν) (p : α) : Memberships ν ι α where
  groups n := if n ∈ ns then (m.groups n).map fun g => (g.1, g.2.erase p) else m.groups n
  entries := update m.entries p none

/-- A member leaves all groups, and its entry goes. -/
def forget (m : Memberships ν ι α) (p : α) : Memberships ν ι α where
  groups n := (m.groups n).map fun g => (g.1, g.2.erase p)
  entries := update m.entries p none

/-! ### The relation -/

/-- Both sides say the same, ids are not shared, and no entry is empty. -/
structure Ok (m : Memberships ν ι α) : Prop where
  agree : ∀ p i, i ∈ (m.entries p).getD ∅ ↔ ∃ n ps, m.groups n = some (i, ps) ∧ p ∈ ps
  distinct : ∀ n n' i ps ps', m.groups n = some (i, ps) → m.groups n' = some (i, ps') → n = n'
  nonempty : ∀ p, m.entries p ≠ some ∅

variable {m m' : Memberships ν ι α} {n : ν} {ps : Finset α} {p : α}

theorem Ok.mem_iff (h : m.Ok) (hn : m.groups n = some (i, ps)) : p ∈ ps ↔ i ∈ (m.entries p).getD ∅ := by
  rw [h.agree]
  constructor
  · exact fun hp => ⟨n, ps, hn, hp⟩
  · rintro ⟨n', ps', hn', hp⟩
    obtain rfl := h.distinct n n' i ps ps' hn hn'
    rw [hn] at hn'
    cases hn'
    exact hp

/-- One group changes, to the members `g`, and with it who has its id entered. -/
theorem Ok.of_setGroup (h : m.Ok) (g : Option (Finset α))
    (hold : ∀ j ps, m.groups n = some (j, ps) → j = i)
    (honly : ∀ n' ps, m.groups n' = some (i, ps) → n' = n)
    (hgroups : m'.groups = update m.groups n (g.map fun ps => (i, ps)))
    (hown : ∀ p, i ∈ (m'.entries p).getD ∅ ↔ p ∈ g.getD ∅)
    (hother : ∀ p j, j ≠ i → (j ∈ (m'.entries p).getD ∅ ↔ j ∈ (m.entries p).getD ∅))
    (hnonempty : ∀ p, m'.entries p ≠ some ∅) : m'.Ok := by
  have hat : m'.groups n = g.map fun ps => (i, ps) := by
    rw [hgroups, update_self]
  have haway : ∀ n', n' ≠ n → m'.groups n' = m.groups n' := fun n' hn' => by
    rw [hgroups, update_of_ne hn']
  refine ⟨fun p j => ?_, fun n₁ n₂ j ps₁ ps₂ h₁ h₂ => ?_, hnonempty⟩
  · obtain rfl | hj := eq_or_ne j i
    · rw [hown]
      constructor
      · intro hp
        cases g with
        | none => exact absurd hp (Finset.notMem_empty p)
        | some ps => exact ⟨n, ps, hat, hp⟩
      · rintro ⟨n', ps, hn', hp⟩
        have hn : n' = n := by
          by_contra hne
          exact hne (honly n' ps ((haway n' hne).symm.trans hn'))
        rw [hn, hat] at hn'
        cases g with
        | none => cases hn'
        | some ps' =>
          cases hn'
          exact hp
    · rw [hother p j hj, h.agree]
      constructor
      all_goals rintro ⟨n', ps, hn', hp⟩
      · have hne : n' ≠ n := by
          rintro rfl
          exact hj (hold j ps hn')
        exact ⟨n', ps, (haway n' hne).trans hn', hp⟩
      · have hne : n' ≠ n := by
          rintro rfl
          rw [hat] at hn'
          cases g with
          | none => cases hn'
          | some ps' =>
            cases hn'
            exact hj rfl
        exact ⟨n', ps, (haway n' hne).symm.trans hn', hp⟩
  · obtain rfl | hj := eq_or_ne j i
    · have hn : ∀ n' ps, m'.groups n' = some (j, ps) → n' = n := fun n' ps hn' => by
        by_contra hne
        exact hne (honly n' ps ((haway n' hne).symm.trans hn'))
      rw [hn n₁ ps₁ h₁, hn n₂ ps₂ h₂]
    · have hm : ∀ n' ps, m'.groups n' = some (j, ps) → m.groups n' = some (j, ps) := by
        intro n' ps hn'
        by_cases hne : n' = n
        · rw [hne, hat] at hn'
          cases g with
          | none => cases hn'
          | some ps' =>
            cases hn'
            exact absurd rfl hj
        · exact (haway n' hne).symm.trans hn'
      exact h.distinct n₁ n₂ j ps₁ ps₂ (hm n₁ ps₁ h₁) (hm n₂ ps₂ h₂)

/-! ### Members and ids -/

theorem mem_record (m : Memberships ν ι α) (ps : Finset α) (i : ι) (p : α) :
    j ∈ ((m.record ps i).entries p).getD ∅ ↔ (p ∈ ps ∧ j = i) ∨ j ∈ (m.entries p).getD ∅ := by
  unfold record
  dsimp only
  split
  · next h => simp [mem_enterId, h]
  · next h => simp [h]

theorem record_nonempty (h : ∀ p, m.entries p ≠ some ∅) (p : α) :
    (m.record ps i).entries p ≠ some ∅ := by
  unfold record
  dsimp only
  split
  · exact enterId_ne_empty
  · exact h p

/-- What was recorded and is erased again is as it was. -/
theorem unrecord_record (m : Memberships ν ι α) (ps : Finset α)
    (hi : ∀ p ∈ ps, i ∉ (m.entries p).getD ∅) (h : ∀ p, m.entries p ≠ some ∅) :
    ((m.record ps i).unrecord ps i).entries = m.entries := by
  funext p
  unfold unrecord record
  dsimp only
  split
  · next hp => rw [eraseId_enterId (hi p hp) (h p)]
  · rfl

/-- The id is that of no group. -/
def Fresh (m : Memberships ν ι α) (i : ι) : Prop := ∀ n ps, m.groups n ≠ some (i, ps)

theorem Ok.notMem_of_fresh (h : m.Ok) (hi : m.Fresh i) (p : α) : i ∉ (m.entries p).getD ∅ := by
  rw [h.agree]
  rintro ⟨n, ps, hn, -⟩
  exact hi n ps hn

theorem Ok.create (h : m.Ok) (hn : m.groups n = none) (hi : m.Fresh i) (ps : Finset α) :
    (m.create n i ps).Ok := by
  refine h.of_setGroup (some ps) (fun j ps' hj => ?_) (fun n' ps' hn' => ?_) rfl
    (fun p => ?_) (fun p j hj => ?_) (record_nonempty h.nonempty)
  · cases hn.symm.trans hj
  · exact absurd hn' (hi n' ps')
  · exact (mem_record m ps i p).trans
      ⟨fun hp => hp.elim And.left fun hmem => absurd hmem (h.notMem_of_fresh hi p),
        fun hp => .inl ⟨hp, rfl⟩⟩
  · exact (mem_record m ps i p).trans ⟨fun hp => hp.resolve_left fun hp => hj hp.2, .inr⟩

theorem Ok.join (h : m.Ok) (n : ν) (p : α) : (m.join n p).Ok := by
  unfold Memberships.join
  split
  · exact h
  · next i ps hn =>
      refine h.of_setGroup (some (insert p ps)) (fun j ps' hj => ?_)
        (fun n' ps' hn' => h.distinct n' n i ps' ps hn' hn) rfl (fun q => ?_) (fun q j hj => ?_)
        (record_nonempty h.nonempty)
      · cases hn.symm.trans hj
        rfl
      · refine (mem_record m {p} i q).trans ?_
        rw [getD_some, Finset.mem_insert, h.mem_iff hn, Finset.mem_singleton]
        simp
      · exact (mem_record m {p} i q).trans ⟨fun hq => hq.resolve_left fun hq => hj hq.2, .inr⟩

theorem Ok.leave (h : m.Ok) (n : ν) (p : α) : (m.leave n p).Ok := by
  unfold Memberships.leave
  split
  · exact h
  · next i ps hn =>
      have hentry : ∀ q j, j ∈ ((m.unrecord {p} i).entries q).getD ∅ ↔
          ¬(q = p ∧ j = i) ∧ j ∈ (m.entries q).getD ∅ := by
        intro q j
        by_cases hq : q = p <;> simp [unrecord, hq, mem_eraseId]
      refine h.of_setGroup (some (ps.erase p)) (fun j ps' hj => ?_)
        (fun n' ps' hn' => h.distinct n' n i ps' ps hn' hn) rfl (fun q => ?_) (fun q j hj => ?_)
        fun q => ?_
      · cases hn.symm.trans hj
        rfl
      · refine (hentry q i).trans ?_
        rw [getD_some, Finset.mem_erase, h.mem_iff hn]
        simp
      · exact (hentry q j).trans ⟨And.right, fun hmem => ⟨fun hq => hj hq.2, hmem⟩⟩
      · change (m.unrecord {p} i).entries q ≠ _
        unfold unrecord
        dsimp only
        split
        · exact eraseId_ne_empty
        · exact h.nonempty q

theorem mem_forget_groups {ps' : Finset α} :
    (m.forget p).groups n = some (i, ps') ↔
      ∃ ps, m.groups n = some (i, ps) ∧ ps' = ps.erase p := by
  unfold forget
  dsimp only
  constructor
  · intro h
    obtain ⟨⟨j, ps⟩, hn, heq⟩ := map_eq_some_iff.1 h
    cases heq
    exact ⟨ps, hn, rfl⟩
  · rintro ⟨ps, hn, rfl⟩
    rw [hn]
    rfl

/-! ### What undoes what -/

theorem dissolve_create (h : m.Ok) (hn : m.groups n = none) (hi : m.Fresh i) (ps : Finset α) :
    (m.create n i ps).dissolve n = m := by
  have hat : (m.create n i ps).groups n = some (i, ps) := update_self _ _ _
  have hentries := unrecord_record m ps (fun p _ => h.notMem_of_fresh hi p) h.nonempty
  unfold Memberships.dissolve
  rw [hat]
  obtain ⟨groups, entries⟩ := m
  have hgroups : update (update groups n (some (i, ps))) n none = groups := by
    rw [update_idem, update_eq_self_iff]
    exact hn.symm
  exact congrArg₂ Memberships.mk hgroups hentries

theorem leave_join (h : m.Ok) (hn : m.groups n = some (i, ps)) (hp : p ∉ ps) :
    (m.join n p).leave n p = m := by
  have hjoin : m.join n p = (m.record {p} i).setGroup n (some (i, insert p ps)) := by
    rw [Memberships.join, hn]
  have hat : (m.join n p).groups n = some (i, insert p ps) := by
    rw [hjoin]
    exact update_self _ _ _
  have hentries := unrecord_record m {p} (fun q hq => by rwa [Finset.mem_singleton.1 hq, ← h.mem_iff hn]) h.nonempty
  unfold Memberships.leave
  rw [hat, hjoin]
  obtain ⟨groups, entries⟩ := m
  have hgroups : update (update groups n (some (i, insert p ps))) n
      (some (i, (insert p ps).erase p)) = groups := by
    rw [update_idem, Finset.erase_insert hp, update_eq_self_iff]
    exact hn.symm
  exact congrArg₂ Memberships.mk hgroups hentries

/-! ### Members that are gone -/

theorem Ok.forget (h : m.Ok) (p : α) : (m.forget p).Ok := by
  have hentries : ∀ q, q ≠ p → (m.forget p).entries q = m.entries q := fun q hq =>
    update_of_ne hq _ _
  have hself : (m.forget p).entries p = none := update_self _ _ _
  refine ⟨fun q i => ?_, fun n n' i ps ps' hn hn' => ?_, fun q => ?_⟩
  · obtain rfl | hq := eq_or_ne q p
    · rw [hself]
      refine ⟨fun hi => absurd hi (Finset.notMem_empty i), ?_⟩
      rintro ⟨n, ps, hn, hp⟩
      obtain ⟨ps', -, rfl⟩ := mem_forget_groups.1 hn
      exact absurd hp (Finset.notMem_erase q ps')
    · rw [hentries q hq, h.agree]
      constructor
      · rintro ⟨n, ps, hn, hp⟩
        exact ⟨n, ps.erase p, mem_forget_groups.2 ⟨ps, hn, rfl⟩, Finset.mem_erase.2 ⟨hq, hp⟩⟩
      · rintro ⟨n, ps', hn, hp⟩
        obtain ⟨ps, hps, rfl⟩ := mem_forget_groups.1 hn
        exact ⟨n, ps, hps, Finset.mem_of_mem_erase hp⟩
  · obtain ⟨_, hn, -⟩ := mem_forget_groups.1 hn
    obtain ⟨_, hn', -⟩ := mem_forget_groups.1 hn'
    exact h.distinct n n' i _ _ hn hn'
  · by_cases hq : q = p
    · rw [hq, hself]
      exact nofun
    · rw [hentries q hq]
      exact h.nonempty q

theorem expel_eq_forget {ns : List ν} (h : ∀ n i ps, m.groups n = some (i, ps) → p ∈ ps → n ∈ ns) :
    m.expel ns p = m.forget p := by
  refine congrArg (Memberships.mk · _) (funext fun n => ?_)
  split
  · rfl
  · next hn =>
      cases hg : m.groups n with
      | none => rfl
      | some g =>
        obtain ⟨i, ps⟩ := g
        rw [map_some, Finset.erase_eq_of_notMem fun hp => hn (h n i ps hg hp)]

end Memberships
