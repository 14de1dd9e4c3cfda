import Sintra.Process.Coordinator

/-!
# Pending sets hold only live participants

A departure marks the process as draining and then drops it from the barriers in flight, group by
group. In between, a barrier may still await a process that is draining or no longer a member; the
invariant is that then a drop is still to come for this group (`WillDrop`).

Five places of the coordinator mark or remove a process without a drop: the two loops of
`begin_shutdown`, the expiry of an invitation, the rollbacks of `join_swarm` and of
`add_external_process_to_standard_groups`, and a custody release that finds nothing to unpublish.
`CleanDeparture` says that they are only taken when no barrier awaits the process.
-/

namespace Sintra.Process.Coordinator

open Function State Machine Option

/-! ### Who is awaited -/

/-- The process that the task goes on to drop from all barriers. -/
def Task.drops : Task → Option InstanceId
  | .collect p .all => some p
  | .release p => some p
  | _ => none

namespace State

def Member (s : State) (g : String) (p : InstanceId) : Prop :=
  ∃ group, s.groups.lookup g = some group ∧ p ∈ group.processIds

/-- A barrier of the group awaits `p`, or a round is being started with `p`. -/
def awaits (s : State) (g : String) (p : InstanceId) : Bool :=
  (s.groups.lookup g).any (·.awaits p) || (s.calls.lookup g).any fun call => p ∈ call.found

/-- Some group awaits `p`. -/
def awaited (s : State) (p : InstanceId) : Bool :=
  s.groups.keys.any (s.awaits · p) || s.calls.keys.any (s.awaits · p)

/-- `p` is still to be dropped from all barriers of the group: there is a task that will, or the
holder of `m_groups_mutex` has not yet come to the group. -/
def WillDrop (s : State) (g : String) (p : InstanceId) : Prop :=
  (∃ t ∈ s.tasks, t.drops = some p) ∨
    ∃ r todo dropped, s.groupsWork = some (.collect ⟨p, r, .all⟩ todo dropped) ∧
      g ∈ if dropped then todo.tail else todo

theorem awaits_iff {s : State} {g : String} {p : InstanceId} :
    s.awaits g p = true ↔
      (∃ group, s.groups.lookup g = some group ∧ group.awaits p = true) ∨
        ∃ call, s.calls.lookup g = some call ∧ p ∈ call.found := by
  simp [awaits, any_eq_true]

theorem not_awaits_of_not_awaited {s : State} {p : InstanceId} (h : s.awaited p = false)
    (g : String) : s.awaits g p = false := by
  rw [awaited, Bool.or_eq_false_iff, List.any_eq_false, List.any_eq_false] at h
  refine Bool.eq_false_iff.2 fun hawaits => ?_
  have hg : g ∈ s.groups.keys ∨ g ∈ s.calls.keys := by
    obtain ⟨group, hgroup, -⟩ | ⟨call, hcall, -⟩ := awaits_iff.1 hawaits
    · exact .inl (AList.mem_keys.1 (AList.lookup_isSome.1 (by simp [hgroup])))
    · exact .inr (AList.mem_keys.1 (AList.lookup_isSome.1 (by simp [hcall])))
  obtain hg | hg := hg
  · exact h.1 g hg hawaits
  · exact h.2 g hg hawaits

/-! ### Lookups after a change of a group -/

theorem lookup_modifyGroup (s : State) (g h : String) (f : ProcessGroup → ProcessGroup) :
    (s.modifyGroup g f).groups.lookup h =
      if h = g then (s.groups.lookup g).map f else s.groups.lookup h := by
  unfold modifyGroup
  cases hg : s.groups.lookup g with
  | none =>
    obtain rfl | hh := eq_or_ne h g
    · simp [hg]
    · simp [hh]
  | some group =>
    obtain rfl | hh := eq_or_ne h g
    · simp [AList.lookup_insert]
    · simp [hh, AList.lookup_insert_ne]

@[simp] theorem modifyGroup_frame (s : State) (g : String) (f : ProcessGroup → ProcessGroup) :
    (s.modifyGroup g f).calls = s.calls ∧ (s.modifyGroup g f).draining = s.draining ∧
      (s.modifyGroup g f).tasks = s.tasks ∧ (s.modifyGroup g f).groupsWork = s.groupsWork := by
  unfold modifyGroup
  split <;> exact ⟨rfl, rfl, rfl, rfl⟩

end State

/-! ### The invariant -/

/-- Whoever is awaited is a live member, or is still to be dropped; a call of `barrier` looks at
members only; and a process is marked while it is being removed. -/
structure Inv (s : State) : Prop where
  awaited : ∀ g p, s.awaits g p = true →
    s.Member g p ∧ s.draining p = false ∨ s.WillDrop g p
  call : ∀ g call, s.calls.lookup g = some call → ∃ group, s.groups.lookup g = some group ∧
    call.unchecked ⊆ group.processIds ∧ call.found ⊆ group.processIds
  removing : ∀ c todo dropped, s.groupsWork = some (.collect c todo dropped) →
    (dropped = true → c.removeProcess = true) ∧
      (c.removeProcess = true → s.draining c.process = true)

theorem inv_initial : Inv initial where
  awaited := by
    intro g p h
    simp [awaits, initial] at h
  call := by
    intro g call h
    simp [initial] at h
  removing := by
    intro c todo dropped h
    simp [initial] at h

section

variable {s s' : State}
  {g : String} {p : InstanceId} {t : Task} {c : Collection} {members : Finset InstanceId}
  {todo : List String}

/-- What is still to be dropped stays so while `m_groups_mutex` does not change hands and no drop is
taken from the tasks. -/
theorem State.WillDrop.mono (h : s.WillDrop g p) (hwork : s'.groupsWork = s.groupsWork)
    (htasks : ∀ t ∈ s.tasks, t.drops = some p → t ∈ s'.tasks) : s'.WillDrop g p := by
  obtain ⟨t, ht, hdrops⟩ | hwalk := h
  · exact .inl ⟨t, htasks t ht hdrops, hdrops⟩
  · refine .inr ?_
    rwa [hwork]

/-- The marks and the holder of `m_groups_mutex` are left alone, and no drop is taken from the
tasks. -/
structure Same (s s' : State) : Prop where
  draining : s'.draining = s.draining
  work : s'.groupsWork = s.groupsWork
  tasks : ∀ t ∈ s.tasks, t.drops ≠ none → t ∈ s'.tasks

theorem Same.willDrop (h : Same s s') (hw : s.WillDrop g p) : s'.WillDrop g p := by
  refine hw.mono h.work fun t ht hdrops => h.tasks t ht ?_
  simp [hdrops]

section

variable (hs : Inv s)

include hs

/-- Only the group of one name and the call there change. -/
theorem Inv.change (hsame : Same s s')
    (hgroups : ∀ h ≠ g, s'.groups.lookup h = s.groups.lookup h)
    (hcalls : ∀ h ≠ g, s'.calls.lookup h = s.calls.lookup h)
    (hself : ∀ p, s'.awaits g p = true → s'.Member g p ∧ s.draining p = false ∨ s.WillDrop g p)
    (hcall : ∀ call, s'.calls.lookup g = some call → ∃ group, s'.groups.lookup g = some group ∧
      call.unchecked ⊆ group.processIds ∧ call.found ⊆ group.processIds) : Inv s' where
  awaited := by
    intro h p hp
    rw [hsame.draining]
    obtain rfl | hh := eq_or_ne h g
    · exact (hself p hp).imp_right hsame.willDrop
    · rw [awaits, hgroups h hh, hcalls h hh] at hp
      refine (hs.awaited h p hp).imp ?_ hsame.willDrop
      rintro ⟨⟨group, hgroup, hmem⟩, hd⟩
      exact ⟨⟨group, (hgroups h hh).trans hgroup, hmem⟩, hd⟩
  call := by
    intro h call hc
    obtain rfl | hh := eq_or_ne h g
    · exact hcall call hc
    · rw [hgroups h hh]
      exact hs.call h call ((hcalls h hh).symm.trans hc)
  removing := by
    rw [hsame.work, hsame.draining]
    exact hs.removing

variable {tasks : Multiset Task}

/-- Only the tasks change. -/
theorem Inv.setTasks (htasks : ∀ t ∈ s.tasks, t.drops ≠ none → t ∈ tasks) :
    Inv { s with tasks := tasks } :=
  -- No group changes, so that any name will do.
  hs.change ⟨rfl, rfl, htasks⟩ (fun _ _ => rfl) (fun _ _ => rfl) (hs.awaited "") (hs.call "")

/-- An awaited process is awaited in a group that exists. -/
theorem Inv.mem_keys (h : s.awaits g p = true) : g ∈ s.groups.keys := by
  have hlookup : (s.groups.lookup g).isSome := by
    obtain ⟨group, hgroup, -⟩ | ⟨call, hcall, -⟩ := awaits_iff.1 h
    · exact isSome_iff_exists.2 ⟨group, hgroup⟩
    · obtain ⟨group, hgroup, -⟩ := hs.call g call hcall
      exact isSome_iff_exists.2 ⟨group, hgroup⟩
  exact AList.mem_keys.1 (AList.lookup_isSome.1 hlookup)

/-! ### Marks -/

/-- A process becomes active: nobody removes it now. -/
theorem Inv.activate (hfree : s.publishMutexFree = true) : Inv (s.setDraining p false) where
  awaited := by
    intro g q h
    refine (hs.awaited g q h).imp ?_ id
    rintro ⟨hmember, hd⟩
    refine ⟨hmember, ?_⟩
    obtain rfl | hq := eq_or_ne q p
    · exact update_self _ _ _
    · exact (update_of_ne hq _ _).trans hd
  call := hs.call
  removing := by
    intro c todo dropped hwork
    change s.groupsWork = _ at hwork
    refine ⟨(hs.removing c todo dropped hwork).1, fun hremove => ?_⟩
    simp [publishMutexFree, hwork, hremove] at hfree

/-- A process is marked as draining, and whoever awaits it is going to be served. -/
theorem Inv.deactivate (hp : ∀ g, s.awaits g p = true → s.WillDrop g p) :
    Inv (s.setDraining p true) where
  awaited := by
    intro g q h
    obtain rfl | hq := eq_or_ne q p
    · exact .inr (hp g h)
    · refine (hs.awaited g q h).imp ?_ id
      rintro ⟨hmember, hd⟩
      exact ⟨hmember, (update_of_ne hq _ _).trans hd⟩
  call := hs.call
  removing := by
    intro c todo dropped hwork
    obtain ⟨hremove, hd⟩ := hs.removing c todo dropped hwork
    refine ⟨hremove, fun h => ?_⟩
    by_cases hc : c.process = p
    · rw [hc]
      exact update_self _ _ _
    · exact (update_of_ne hc _ _).trans (hd h)

theorem Inv.mark (hp : s.awaited p = false) : Inv (s.setDraining p true) := by
  refine hs.deactivate fun g h => ?_
  simp [not_awaits_of_not_awaited hp g] at h

theorem Inv.addTask (t : Task) : Inv (s.addTask t) :=
  hs.setTasks fun _ h _ => Multiset.mem_cons_of_mem h

/-- A task that drops nobody ends. -/
theorem Inv.endTask (ht : t.drops = none) : Inv (s.endTask t) := by
  refine hs.setTasks fun t' ht' hdrops => ?_
  refine (Multiset.mem_erase_of_ne ?_).2 ht'
  rintro rfl
  exact hdrops ht

/-- A process is marked by an operation that goes on to drop it. -/
theorem Inv.mark_addTask (ht : t.drops = some p) : Inv ((s.setDraining p true).addTask t) := by
  refine (hs.addTask t).deactivate fun g _ => ?_
  exact .inl ⟨t, Multiset.mem_cons_self _ _, ht⟩

/-! ### Groups -/

variable {f : ProcessGroup → ProcessGroup}

omit hs in
theorem State.awaits_modifyGroup_self
    (hfree : s.callMutexFree g = true) (h : (s.modifyGroup g f).awaits g p = true) :
    ∃ group, s.groups.lookup g = some group ∧ (f group).awaits p = true := by
  have hcall : s.calls.lookup g = none := isNone_iff_eq_none.1 hfree
  simpa [awaits, lookup_modifyGroup, hcall, any_map, any_eq_true] using h

/-- A group changes, under its `m_call_mutex`, to one that awaits no more, and no live process it
awaits is lost from it. -/
theorem Inv.modifyGroup (hfree : s.callMutexFree g = true)
    (hf : ∀ group p, (f group).awaits p = true → group.awaits p = true)
    (hlive : ∀ group p, s.groups.lookup g = some group → group.awaits p = true → s.draining p = false →
      p ∈ group.processIds → p ∈ (f group).processIds) : Inv (s.modifyGroup g f) := by
  obtain ⟨hcalls, hdraining, htasks, hwork⟩ := s.modifyGroup_frame g f
  refine hs.change ⟨hdraining, hwork, fun t ht _ => htasks ▸ ht⟩ (g := g) (fun h hh => ?_)
    (fun h _ => by rw [hcalls]) (fun p hp => ?_) fun call hcall => ?_
  · rw [lookup_modifyGroup, if_neg hh]
  · obtain ⟨group, hgroup, hpf⟩ := awaits_modifyGroup_self hfree hp
    have hpg := hf group p hpf
    refine (hs.awaited g p (awaits_iff.2 (.inl ⟨group, hgroup, hpg⟩))).imp_left ?_
    rintro ⟨⟨group', hgroup', hmem⟩, hd⟩
    obtain rfl : group = group' := mem_unique hgroup hgroup'
    refine ⟨⟨f group, ?_, hlive group p hgroup hpg hd hmem⟩, hd⟩
    rw [lookup_modifyGroup, if_pos rfl, hgroup, map_some]
  · rw [hcalls] at hcall
    simp [callMutexFree, hcall] at hfree

/-- `m_groups_mutex` changes hands, or its holder goes on, and everybody awaited who was to be
dropped still is. -/
theorem Inv.setWork {w : Option GroupsWork}
    (hwill : ∀ g p r todo dropped, s.awaits g p = true →
      s.groupsWork = some (.collect ⟨p, r, .all⟩ todo dropped) →
      g ∈ (if dropped then todo.tail else todo) → (s.setWork w).WillDrop g p)
    (hremoving : ∀ c todo dropped, w = some (.collect c todo dropped) →
      (dropped = true → c.removeProcess = true) ∧
        (c.removeProcess = true → s.draining c.process = true)) : Inv (s.setWork w) where
  awaited := by
    intro g p h
    refine (hs.awaited g p h).imp id ?_
    rintro (htask | ⟨r, todo, dropped, hwork, hg⟩)
    · exact .inl htask
    · exact hwill g p r todo dropped h hwork hg
  call := hs.call
  removing := hremoving

/-- A holder of `m_groups_mutex` that collects nothing goes on with something that is no
collection. -/
theorem Inv.setWork_of_not_collect {w : Option GroupsWork}
    (hold : ∀ c todo dropped, s.groupsWork ≠ some (.collect c todo dropped))
    (hnew : ∀ c todo dropped, w ≠ some (.collect c todo dropped)) : Inv (s.setWork w) := by
  apply hs.setWork
  · intro g p r todo dropped _ hwork
    exact absurd hwork (hold _ _ _)
  · intro c todo dropped hwork
    exact absurd hwork (hnew _ _ _)

/-- The group of one name changes, while no barrier call is in progress there and nobody is awaited. -/
theorem Inv.regroup {groups : AList fun _ : String => ProcessGroup} {n : ℕ}
    (hcall : s.calls.lookup g = none) (hother : ∀ h, h ≠ g → groups.lookup h = s.groups.lookup h)
    (hself : ∀ p, ¬awaits { s with groups := groups, nextTransceiver := n } g p) :
    Inv { s with groups := groups, nextTransceiver := n } := by
  refine hs.change ⟨rfl, rfl, fun _ ht _ => ht⟩ hother (fun _ _ => rfl)
    (fun p hp => absurd hp (hself p)) fun call hc => ?_
  cases hcall.symm.trans hc

/-- A new group has no barriers. -/
theorem Inv.insertGroup (hg : s.groups.lookup g = none) (members : Finset InstanceId) (n : ℕ) :
    Inv { s with
      groups := s.groups.insert g { processIds := members, barriers := ∅ }
      nextTransceiver := n } := by
  have hcall : s.calls.lookup g = none := by
    refine eq_none_iff_forall_ne_some.2 fun call hcall => ?_
    obtain ⟨group, hgroup, -⟩ := hs.call g call hcall
    simp [hg] at hgroup
  refine hs.regroup hcall (fun h hh => AList.lookup_insert_ne hh) fun p hp => ?_
  simp [awaits, hcall, AList.lookup_insert, ProcessGroup.awaits] at hp

/-- A group goes, with its barriers. -/
theorem Inv.eraseGroup (hfree : s.callMutexFree g = true) :
    Inv { s with groups := s.groups.erase g } := by
  have hcall : s.calls.lookup g = none := isNone_iff_eq_none.1 hfree
  refine hs.regroup hcall (fun h hh => AList.lookup_erase_ne hh) fun p hp => ?_
  simp [awaits, hcall, AList.lookup_erase] at hp

/-! ### Publication and unpublication -/

theorem Inv.publishTransceiver {iid : Instance} {assignedName : String} {readerIdentity : ReaderIdentity}
    (hfree : s.publishMutexFree = true)
    (h : s.publishTransceiver iid assignedName readerIdentity = some s') : Inv s' := by
  obtain ⟨names, processRegistry, ⟨-, rfl⟩ | ⟨-, rfl⟩⟩ := publishTransceiver_cases h
  · exact { hs with }
  · apply Inv.activate
    · exact { hs with }
    · exact hfree

/-- A collection begins: the tasks may lose their drops of its process, if it drops from all
barriers. -/
theorem Inv.beginCollection (hwork : s.groupsWork = none)
    (htasks : ∀ t ∈ s.tasks, t.drops ≠ none → t ∉ tasks → t.drops = some c.process ∧ c.scope = .all)
    (hdraining : c.removeProcess = true → s.draining c.process = true) :
    Inv { s with tasks := tasks, groupsWork := some (.collect c s.groups.keys false) } := by
  constructor
  · intro g p h
    have hg := hs.mem_keys h
    obtain hlive | ⟨t, ht, hdrops⟩ | ⟨r, todo, dropped, hw, -⟩ := hs.awaited g p h
    · exact .inl hlive
    · right
      by_cases hmem : t ∈ tasks
      · exact .inl ⟨t, hmem, hdrops⟩
      · obtain ⟨hc, hscope⟩ := htasks t ht (by simp [hdrops]) hmem
        obtain rfl : p = c.process := by simpa [hdrops] using hc
        refine .inr ⟨c.removeProcess, s.groups.keys, false, ?_, hg⟩
        simp [← hscope]
    · simp [hwork] at hw
  · exact hs.call
  · intro c' todo dropped hw
    obtain ⟨rfl, -, rfl⟩ : c = c' ∧ s.groups.keys = todo ∧ false = dropped := by simpa using hw
    exact ⟨by simp, hdraining⟩

/-- A process is unpublished, maybe by the task that releases its custody. -/
theorem Inv.unpublishProcess (hwork : s.groupsWork = none)
    (htasks : ∀ t ∈ s.tasks, t.drops ≠ none → t ∉ tasks → t.drops = some p) :
    Inv ({ s with tasks := tasks }.unpublishProcess p) := by
  have hbegin : Inv { s.addTask (.release p) with
      names := fun n => (s.names n).filter fun iid => iid.process ≠ p
      registry := s.registry.erase p
      attached := s.attached.erase p
      draining := update s.draining p true } :=
    { hs.mark_addTask rfl with }
  refine hbegin.beginCollection hwork ?_ fun _ => update_self _ _ _
  intro t ht hdrops hmem
  refine ⟨?_, rfl⟩
  obtain rfl | ht := Multiset.mem_cons.1 ht
  · rfl
  · exact htasks t ht hdrops hmem

theorem Inv.unpublishTransceiver {iid : Instance} {expectedIdentity : Option ReaderIdentity}
    (h : s.unpublishTransceiver iid expectedIdentity = some s') : Inv s' := by
  unfold State.unpublishTransceiver at h
  split at h
  · split_ifs at h
    cases h
    exact hs
  · split_ifs at h
    · split at h
      next hwork =>
        cases h
        exact hs.unpublishProcess hwork fun t ht _ hmem => absurd ht hmem
      next => cases h
    · cases h
      exact { hs with }

/-- The release of a custody goes on: if it finds nothing to unpublish, nobody may await the
process. -/
theorem Inv.release (hclean : s.publicationOf (managedProcess p) none = none → s.awaited p = false)
    (h : (s.endTask (.release p)).unpublishTransceiver (managedProcess p) none = some s') : Inv s' := by
  have htasks : ∀ t ∈ s.tasks, t.drops ≠ none → t ∉ s.tasks.erase (.release p) →
      t.drops = some p := by
    intro t ht _ hmem
    by_cases hne : t = .release p
    · rw [hne]
      rfl
    · exact absurd ((Multiset.mem_erase_of_ne hne).2 ht) hmem
  unfold State.unpublishTransceiver at h
  split at h
  next hnone =>
    split_ifs at h
    cases h
    constructor
    · intro g q hq
      obtain rfl | hqp := eq_or_ne q p
      · have hnot := not_awaits_of_not_awaited (hclean hnone) g
        exact absurd hq (Bool.eq_false_iff.1 hnot)
      · refine (hs.awaited g q hq).imp id fun hw => hw.mono rfl fun t ht hdrops => ?_
        by_contra hmem
        exact hqp (some.inj (hdrops.symm.trans (htasks t ht (by simp [hdrops]) hmem)))
    · exact hs.call
    · exact hs.removing
  next =>
    split_ifs at h with hiid
    · split at h
      next hwork =>
        cases h
        exact hs.unpublishProcess hwork htasks
      next => cases h
    · exact absurd rfl hiid

/-! ### Calls of `barrier` -/

/-- The first section of a call changes the calls of its group only. -/
theorem Inv.setCall {group : ProcessGroup} {call : BarrierCall} (hgroup : s.groups.lookup g = some group)
    (hunchecked : call.unchecked ⊆ group.processIds) (hmember : call.found ⊆ group.processIds)
    (hfound : ∀ p ∈ call.found, s.awaits g p = true ∨ s.draining p = false) :
    Inv { s with calls := s.calls.insert g call } := by
  refine hs.change ⟨rfl, rfl, fun _ ht _ => ht⟩ (fun _ _ => rfl)
    (fun _ hh => AList.lookup_insert_ne hh) (fun p hp => ?_) fun call' hcall' => ?_
  · rw [awaits_iff] at hp
    simp only [AList.lookup_insert, some.injEq, exists_eq_left'] at hp
    obtain hp | hp := hp
    · exact hs.awaited g p (awaits_iff.2 (.inl hp))
    · obtain hawaits | hd := hfound p hp
      · exact hs.awaited g p hawaits
      · exact .inl ⟨⟨group, hgroup, hmember hp⟩, hd⟩
  · obtain rfl : call = call' := by simpa [AList.lookup_insert] using hcall'
    exact ⟨group, hgroup, hunchecked, hmember⟩

theorem Inv.barrier {caller : InstanceId} {n : String} {modeTag : ℤ}
    (h : s.barrier g caller n modeTag = some s') : Inv s' := by
  unfold State.barrier at h
  split at h
  · cases h
  next group hgroup =>
    split_ifs at h
    · cases h
      apply hs.setCall hgroup
      · split_ifs
        · exact subset_rfl
        · exact Finset.empty_subset _
      · exact Finset.empty_subset _
      · intro p hp
        simp at hp
    · cases h
      exact hs

theorem Inv.check (h : s.check g p = some s') : Inv s' := by
  unfold State.check at h
  split at h
  · cases h
  next call hcall =>
    split_ifs at h with hp
    cases h
    obtain ⟨group, hgroup, hunchecked, hfound⟩ := hs.call g call hcall
    apply hs.setCall hgroup
    · exact (Finset.erase_subset _ _).trans hunchecked
    · split_ifs
      · exact hfound
      · exact Finset.insert_subset (hunchecked hp) hfound
    · intro q hq
      have hold : q ∈ call.found → s.awaits g q = true :=
        fun hq => awaits_iff.2 (.inr ⟨call, hcall, hq⟩)
      split_ifs at hq with habsent
      · exact .inl (hold hq)
      · obtain rfl | hq := Finset.mem_insert.1 hq
        · right
          simp [ProcessGroup.absent] at habsent
          exact habsent.1
        · exact .inl (hold hq)

/-- The call leaves its first section, with its group as it leaves it. -/
theorem Inv.endCall {group group' : ProcessGroup} {call : BarrierCall}
    (hcall : s.calls.lookup g = some call) (hgroup : s.groups.lookup g = some group)
    (hids : group'.processIds = group.processIds)
    (hawaits : ∀ p, group'.awaits p = true → group.awaits p = true ∨ p ∈ call.found)
    (hcalls : s'.calls = s.calls.erase g) (hself : s'.groups.lookup g = some group')
    (hother : ∀ h ≠ g, s'.groups.lookup h = s.groups.lookup h) (hsame : Same s s') : Inv s' := by
  refine hs.change hsame hother (fun h hh => ?_) (fun p hp => ?_) fun call' hcall' => ?_
  · rw [hcalls, AList.lookup_erase_ne hh]
  · rw [awaits_iff, hself, hcalls] at hp
    simp only [AList.lookup_erase, some.injEq, exists_eq_left', reduceCtorEq, false_and,
      exists_false, or_false] at hp
    have hold : s.awaits g p = true := by
      rw [awaits_iff]
      obtain hp | hp := hawaits p hp
      · exact .inl ⟨group, hgroup, hp⟩
      · exact .inr ⟨call, hcall, hp⟩
    refine (hs.awaited g p hold).imp_left ?_
    rintro ⟨⟨group₀, hgroup₀, hmem⟩, hd⟩
    obtain rfl : group = group₀ := mem_unique hgroup hgroup₀
    exact ⟨⟨group', hself, hids ▸ hmem⟩, hd⟩
  · simp [hcalls, AList.lookup_erase] at hcall'

theorem Inv.arrive (h : s.arrive g = some s') : Inv s' := by
  unfold State.arrive at h
  split at h
  next call group hcall hgroup =>
    split_ifs at h
    split at h
    · cases h
      exact hs.endCall hcall hgroup rfl (fun p hp => .inl hp) rfl hgroup (fun _ _ => rfl)
        ⟨rfl, rfl, fun _ ht _ => ht⟩
    next b hb =>
      have hfound : ∀ p, (group.put call.barrierName b).awaits p = true →
          group.awaits p = true ∨ p ∈ call.found := by
        intro p hp
        refine (ProcessGroup.awaits_barrier hb hp).imp id ?_
        rintro ⟨-, hfound⟩
        simpa using hfound
      have hids : (group.put call.barrierName b).processIds = group.processIds := rfl
      have hend : Inv { s with
          calls := s.calls.erase g
          groups := s.groups.insert g (group.put call.barrierName b)
          nextIid := s.nextIid + 1
          nextObject := s.nextObject + 1 } :=
        hs.endCall hcall hgroup hids hfound rfl (AList.lookup_insert _)
          (fun h hh => AList.lookup_insert_ne hh) ⟨rfl, rfl, fun _ ht _ => ht⟩
      split_ifs at h
      · cases h
        exact hend.addTask _
      · cases h
        exact hend
  next => cases h

/-! ### Creation and removal of groups -/

theorem Inv.createGroup (hg : s.groups.lookup g = none) (hfree : s.publishMutexFree = true)
    (h : s.createGroup g members = some s') : Inv s' := by
  have hinsert := hs.insertGroup hg members (s.nextTransceiver + 1)
  exact hinsert.publishTransceiver hfree h

theorem Inv.makeProcessGroup (h : s.makeProcessGroup g members = some s') : Inv s' := by
  unfold State.makeProcessGroup at h
  split at h
  · cases h
  next hwork =>
    split_ifs at h with hg
    · cases h
      exact hs
    · cases h
      cases hcreate : s.createGroup g members with
      | none => exact hs
      | some s' =>
        refine hs.createGroup ?_ (by simp [publishMutexFree, hwork]) hcreate
        simpa using hg

omit hs in
/-- A creation of a group touches nothing but the groups and the registry. -/
theorem State.createGroup_groupsWork (h : s.createGroup g members = some s') :
    s'.groupsWork = s.groupsWork := by
  obtain ⟨names, processRegistry, ⟨-, rfl⟩ | ⟨-, rfl⟩⟩ := publishTransceiver_cases h <;> rfl

theorem Inv.ensureGroup {updates updates' : List (String × Option Instance)} {todo' : List String}
    (hwork : s.groupsWork = some (.attach p todo' updates')) (hfree : s.callMutexFree g = true) :
    Inv (s.ensureGroup p g todo updates) := by
  unfold State.ensureGroup
  split
  · apply Inv.setWork_of_not_collect
    · apply hs.modifyGroup hfree
      · exact fun _ _ h => h
      · intro group q _ _ _ hq
        exact Finset.mem_insert_of_mem hq
    · simp [hwork]
    · simp
  next hg =>
    split
    next s' hcreate =>
      apply Inv.setWork_of_not_collect
      · exact hs.createGroup hg (by simp [publishMutexFree, hwork]) hcreate
      · simp [createGroup_groupsWork hcreate, hwork]
      · simp
    · apply hs.setWork_of_not_collect
      · simp [hwork]
      · simp

/-- A rolled back removal is clean when the group does not await the process. -/
theorem Inv.rollbackUpdate {u : String × Option Instance} (hfree : s.callMutexFree u.1 = true)
    (hclean : u.2 = none → s.awaits u.1 p = false) : Inv (s.rollbackUpdate p u) := by
  obtain ⟨g, iid | iid⟩ := u
  · apply hs.modifyGroup hfree
    · exact fun _ _ h => h
    · intro group q hgroup hawaits _ hq
      refine Finset.mem_erase_of_ne_of_mem ?_ hq
      rintro rfl
      have hnot : s.awaits g q = true := awaits_iff.2 (.inl ⟨group, hgroup, hawaits⟩)
      exact absurd hnot (Bool.eq_false_iff.1 (hclean rfl))
  · unfold State.rollbackUpdate
    dsimp only
    split
    next publication _ =>
      have hunpublish : Inv (s.unpublishInstance iid publication) :=
        { hs with }
      exact hunpublish.eraseGroup hfree
    · exact hs.eraseGroup hfree

omit hs in
@[simp] theorem State.rollbackUpdate_groupsWork (s : State) (p : InstanceId)
    (update : String × Option Instance) : (s.rollbackUpdate p update).groupsWork = s.groupsWork := by
  obtain ⟨g, iid | iid⟩ := update
  · exact (s.modifyGroup_frame g _).2.2.2
  · unfold rollbackUpdate
    dsimp only
    split <;> rfl

/-! ### Collections -/

/-- A collection comes to a group and drops its process there. -/
theorem Inv.collectDrop (hwork : s.groupsWork = some (.collect c (g :: todo) false))
    (hfree : s.callMutexFree g = true) :
    Inv ((s.modifyGroup g (·.dropFromInflightBarriers c.process c.scope)).setWork
      (some (if c.removeProcess then .collect c (g :: todo) true else .collect c todo false))) := by
  obtain ⟨-, hdraining⟩ := hs.removing c (g :: todo) false hwork
  apply Inv.setWork
  · apply hs.modifyGroup hfree
    · exact fun _ _ h => ProcessGroup.awaits_dropFromInflightBarriers h
    · intro group p _ _ _ hp
      simpa using hp
  · intro h p r todo' dropped hawaits hwork' hmem
    obtain ⟨rfl, rfl, rfl⟩ : c = ⟨p, r, .all⟩ ∧ g :: todo = todo' ∧ false = dropped := by
      simpa [hwork] using hwork'
    have hne : h ≠ g := by
      rintro rfl
      obtain ⟨group, -, hp⟩ := awaits_modifyGroup_self hfree hawaits
      simp [ProcessGroup.not_awaits_dropFromInflightBarriers] at hp
    have hmem : h ∈ todo := by simpa [hne] using hmem
    cases r with
    | false => exact .inr ⟨false, todo, false, rfl, hmem⟩
    | true => exact .inr ⟨true, g :: todo, true, rfl, hmem⟩
  · intro c' todo' dropped hwork'
    split_ifs at hwork' with hremove
    · obtain ⟨rfl, -, -⟩ : c = c' ∧ g :: todo = todo' ∧ true = dropped := by simpa using hwork'
      exact ⟨fun _ => hremove, by simpa using hdraining⟩
    · obtain ⟨rfl, -, rfl⟩ : c = c' ∧ todo = todo' ∧ false = dropped := by simpa using hwork'
      exact ⟨by simp, by simpa using hdraining⟩

/-- The collection of an unpublication removes the process from the group, which does not await it
as a live member. -/
theorem Inv.collectRemove (hwork : s.groupsWork = some (.collect c (g :: todo) true))
    (hfree : s.callMutexFree g = true) :
    Inv ((s.modifyGroup g (·.removeProcess c.process)).setWork (some (.collect c todo false))) := by
  obtain ⟨hremove, hdraining⟩ := hs.removing c (g :: todo) true hwork
  apply Inv.setWork
  · apply hs.modifyGroup hfree
    · exact fun _ _ h => h
    · intro group p _ _ hp hmem
      refine Finset.mem_erase_of_ne_of_mem ?_ hmem
      rintro rfl
      simp [hdraining (hremove rfl)] at hp
  · intro h p r todo' dropped _ hwork' hmem
    obtain ⟨rfl, rfl, rfl⟩ : c = ⟨p, r, .all⟩ ∧ g :: todo = todo' ∧ true = dropped := by
      simpa [hwork] using hwork'
    exact .inr ⟨r, todo, false, rfl, hmem⟩
  · intro c' todo' dropped hwork'
    obtain ⟨rfl, -, rfl⟩ : c = c' ∧ todo = todo' ∧ false = dropped := by simpa using hwork'
    exact ⟨by simp, by simpa using hdraining⟩

/-- The holder of `m_groups_mutex` is done. -/
theorem Inv.endWork (hdone : ∀ c todo dropped, s.groupsWork = some (.collect c todo dropped) → todo = []) :
    Inv (s.setWork none) := by
  apply hs.setWork
  · intro g p r todo dropped _ hwork hg
    rw [hdone _ _ _ hwork] at hg
    simp at hg
  · simp

end

/-! ### Steps -/

/-- The places that mark or remove a process without a drop are only taken when no barrier awaits
it. -/
def State.departsCleanly (s : State) : Action → Bool
  | .task (.mark p) => !s.awaited p
  | .task (.release p) => (s.publicationOf (managedProcess p) none).isSome || !s.awaited p
  | .expireInvitation p => s.invitations.lookup p ≠ some .rejecting || !s.awaited p
  | .work =>
    match s.groupsWork with
    | some (.delist p (g :: _)) | some (.rollback p ((g, none) :: _)) => !s.awaits g p
    | _ => true
  | _ => true

/-- A step that is no departure without a drop, or a clean one. -/
def CleanDeparture (s : State) (a : Action) : Prop := s.departsCleanly a = true

instance (s : State) (a : Action) : Decidable (CleanDeparture s a) :=
  inferInstanceAs (Decidable (_ = true))

section

variable (hs : Inv s)

include hs

theorem Inv.work (hclean : CleanDeparture s .work) (h : s.work = some s') : Inv s' := by
  unfold State.work at h
  split at h
  · cases h
  next hwork =>
    cases h
    apply hs.endWork
    intro c todo dropped hw
    simp_all
  next hwork =>
    split at h
    next hfree =>
      cases h
      exact hs.collectDrop hwork hfree
    next => cases h
  next hwork =>
    split_ifs at h with hfree
    cases h
    exact hs.collectRemove hwork hfree
  next p hwork =>
    cases h
    refine (hs.endWork ?_).addTask _
    simp [hwork]
  next p g todo hwork =>
    split_ifs at h with hfree
    cases h
    apply Inv.setWork_of_not_collect
    · apply hs.modifyGroup hfree
      · exact fun _ _ h => h
      · intro group q _ _ _ hq
        exact Finset.mem_insert_of_mem hq
    · simp [hwork]
    · simp
  next hwork =>
    cases h
    refine hs.endWork ?_
    simp [hwork]
  next p g todo hwork =>
    split_ifs at h with hfree
    cases h
    have hclean : s.awaits g p = false := by
      simpa [CleanDeparture, departsCleanly, hwork] using hclean
    apply Inv.setWork_of_not_collect
    · exact hs.rollbackUpdate (u := (g, none)) hfree fun _ => hclean
    · simp [hwork]
    · simp
  next hwork =>
    cases h
    refine { hs.endWork ?_ with }
    simp [hwork]
  next p g todo updates hwork =>
    split_ifs at h with hfree
    cases h
    exact hs.ensureGroup hwork hfree
  next p hwork =>
    cases h
    refine { hs.endWork ?_ with }
    simp [hwork]
  next p update updates hwork =>
    split_ifs at h with hfree
    cases h
    apply Inv.setWork_of_not_collect
    · refine hs.rollbackUpdate hfree fun hnone => ?_
      obtain ⟨g, iid⟩ := update
      obtain rfl : iid = none := hnone
      simpa [CleanDeparture, departsCleanly, hwork] using hclean
    · simp [hwork]
    · simp

theorem Inv.takeGroups {w : GroupsWork} (h : s.takeGroups w = some s')
    (hw : ∀ c todo dropped, w ≠ .collect c todo dropped) : Inv s' := by
  unfold State.takeGroups at h
  split at h
  next hwork =>
    cases h
    apply hs.setWork_of_not_collect
    · simp [hwork]
    · simpa using hw
  next => cases h

/-- A task goes on. -/
theorem Inv.resume (hclean : CleanDeparture s (.task t)) (h : (s.endTask t).resume t = some s') :
    Inv s' := by
  cases t with
  | closeRound g n object iid =>
    obtain ⟨hfree, ⟨⟩⟩ := Machine.of_guard h
    apply (hs.endTask rfl).modifyGroup hfree
    · exact fun _ _ h => ProcessGroup.awaits_closeRound h
    · intro group p _ _ _ hp
      simpa using hp
  | collect p scope =>
    simp only [State.resume, State.takeGroups] at h
    split at h
    next hwork =>
      cases h
      refine hs.beginCollection hwork (fun t ht hdrops hmem => ?_) (by simp)
      obtain rfl : t = .collect p scope := by
        by_contra hne
        exact hmem ((Multiset.mem_erase_of_ne hne).2 ht)
      cases scope with
      | all => exact ⟨rfl, rfl⟩
      | userOnly => exact absurd rfl hdrops
    next => cases h
  | enlist p | delist p => exact (hs.endTask rfl).takeGroups h (by simp)
  | launch p => cases h
  | release p =>
    refine hs.release (fun hnone => ?_) h
    simpa [CleanDeparture, State.departsCleanly, hnone] using hclean
  | cancelInvitations =>
    simp only [State.resume] at h
    split_ifs at h
    cases h
    have hend : Inv { s.endTask .cancelInvitations with invitations := ∅ } := { hs.endTask rfl with }
    refine Inv.addTask ?_ _
    refine hend.setTasks fun t ht _ => ?_
    exact Multiset.mem_add.2 (.inr ht)
  | drainAttached =>
    obtain ⟨-, ⟨⟩⟩ := Machine.of_guard h
    refine (hs.endTask rfl).setTasks fun t ht _ => ?_
    exact Multiset.mem_add.2 (.inr ht)
  | mark p =>
    cases h
    have hclean : s.awaited p = false := by
      simpa [CleanDeparture, State.departsCleanly] using hclean
    exact (hs.endTask rfl).mark hclean

theorem Inv.spawn (h : s.spawn p = some s') : Inv s' := by
  unfold State.spawn at h
  split_ifs at h
  · cases h
    exact hs
  · cases h
    exact { hs with }

theorem Inv.expireInvitation (hclean : CleanDeparture s (.expireInvitation p))
    (h : s.expireInvitation p = some s') : Inv s' := by
  unfold State.expireInvitation at h
  split_ifs at h
  split at h
  · cases h
  · cases h
    exact { hs with }
  next hrejecting =>
    cases h
    have hclean : s.awaited p = false := by
      simpa [CleanDeparture, departsCleanly, hrejecting] using hclean
    exact { hs.mark hclean with }
  · cases h
    exact { hs with }

theorem Inv.claimInvitation {occurrence : ℕ} (h : s.claimInvitation p occurrence = some s') :
    Inv s' := by
  unfold State.claimInvitation at h
  split_ifs at h with hmutex
  · cases h
    exact hs
  · cases h
    apply Inv.activate
    · exact { hs with }
    · have hfree : s.publishMutexFree = true := by simp_all
      exact hfree

theorem Inv.launched {r : LaunchResult} (h : s.launched p r = some s') : Inv s' := by
  cases r with
  | spawned => exact hs.spawn h
  | failed =>
    cases h
    exact hs.addTask _
  | threw =>
    cases h
    exact hs

/-- The steps that only touch the invitations. -/
theorem Inv.invitations (h : s.reserveInvitation p = some s' ∨ s.cancelInvitation p = some s') :
    Inv s' := by
  unfold reserveInvitation cancelInvitation at h
  obtain h | h := h
  all_goals
    split_ifs at h
    all_goals
      cases h
      exact { hs with }

/-- Every clean step keeps the invariant. -/
theorem Inv.next {a : Action} (hclean : CleanDeparture s a) (h : s.next a = some s') : Inv s' := by
  cases a with
  | barrier g caller n modeTag => exact hs.barrier h
  | check g p => exact hs.check h
  | arrive g => exact hs.arrive h
  | publishTransceiver iid assignedName readerIdentity =>
    obtain ⟨hfree, ⟨⟩⟩ := of_guard h
    cases hp : s.publishTransceiver iid assignedName readerIdentity with
    | none => exact hs
    | some s' => exact hs.publishTransceiver hfree hp
  | unpublishTransceiver iid expectedIdentity => exact hs.unpublishTransceiver h
  | spawn p => exact hs.spawn h
  | beginProcessDraining p | releaseCustody p =>
    cases h
    exact hs.mark_addTask rfl
  | beginCollectiveShutdown p | beginShutdown | joinSwarm =>
    cases h
    refine Inv.addTask ?_ _
    exact { hs with }
  | makeProcessGroup name members => exact hs.makeProcessGroup h
  | launched p r =>
    simp only [State.next] at h
    split_ifs at h
    exact (hs.endTask rfl).launched h
  | reserveInvitation p => exact hs.invitations (.inl h)
  | cancelInvitation p => exact hs.invitations (.inr h)
  | expireInvitation p => exact hs.expireInvitation hclean h
  | claimInvitation p occurrence => exact hs.claimInvitation h
  | attach =>
    simp only [State.next, State.attach] at h
    split at h
    · exact hs.takeGroups h (by simp)
    · cases h
  | work => exact hs.work hclean h
  | task t =>
    simp only [State.next] at h
    split_ifs at h
    exact hs.resume hclean h

end

end

/-- The invariant holds in every state of a run of clean departures. -/
theorem reachable_inv {s : State} (h : machine.ReachableUnder CleanDeparture s) : Inv s := by
  refine h.invariant ?_ ?_
  · rintro s rfl
    exact inv_initial
  · intro s a s' _ hs hclean hstep
    obtain ⟨s₁, hnext, rfl⟩ := map_eq_some_iff.1 hstep
    exact { hs.next hclean hnext with }

/-! ### Results -/

/-- **Pending sets hold only live participants.** In every run in which no process is marked or
removed without a drop while a barrier awaits it: whenever no operation is in progress, every process
pending in a barrier of a group is a member of the group and not draining. -/
theorem pending_live {s : State} (hs : machine.ReachableUnder CleanDeparture s) (hrest : s.AtRest)
    {g : String} {group : ProcessGroup} (hgroup : s.groups.lookup g = some group) {n : String}
    {b : Barrier} (hb : group.barriers.lookup n = some b) {p : InstanceId}
    (hp : p ∈ b.processesPending) : p ∈ group.processIds ∧ s.draining p = false := by
  obtain ⟨-, hwork, -, htasks⟩ := hrest
  have hawaits : s.awaits g p = true :=
    awaits_iff.2 (.inl ⟨group, hgroup, ProcessGroup.awaits_iff.2 ⟨n, b, hb, hp⟩⟩)
  obtain ⟨⟨group', hgroup', hmem⟩, hd⟩ | ⟨t, ht, -⟩ | ⟨r, todo, dropped, hw, -⟩ :=
    (reachable_inv hs).awaited g p hawaits
  · obtain rfl : group = group' := mem_unique hgroup hgroup'
    exact ⟨hmem, hd⟩
  · simp [htasks] at ht
  · simp [hwork] at hw

/-- An external process attaches, and the coordinator's process calls `barrier`: the round awaits the
external process. -/
def awaitExternal : List Action :=
  [.reserveInvitation 7, .claimInvitation 7 1, .attach, .work, .work, .work,
    .barrier allProcesses mprocId "b" 0, .check allProcesses mprocId, .check allProcesses 7,
    .arrive allProcesses]

/-- A barrier of the group awaits the process. -/
def pendingIn (s : State) (g n : String) (p : InstanceId) : Bool :=
  (s.groups.lookup g).any fun group => (group.barriers.lookup n).any (p ∈ ·.processesPending)

theorem pending_live_external : ∃ s, machine.ReachableUnder CleanDeparture s ∧ s.AtRest ∧
    ∃ group b, s.groups.lookup allProcesses = some group ∧ group.barriers.lookup "b" = some b ∧
      7 ∈ b.processesPending ∧ 7 ∈ group.processIds ∧ s.draining 7 = false := by
  obtain ⟨s, hs, hrest, hpending⟩ : ∃ s, machine.ReachableUnder CleanDeparture s ∧ s.AtRest ∧
      pendingIn s allProcesses "b" 7 = true :=
    exists_reachableUnder_of_exec awaitExternal rfl (by decide +kernel)
  obtain ⟨group, hgroup, hb⟩ := (any_eq_true _ _).1 hpending
  obtain ⟨b, hb, hp⟩ := (any_eq_true _ _).1 hb
  have hp : 7 ∈ b.processesPending := by simpa using hp
  exact ⟨s, hs, hrest, group, b, hgroup, hb, hp, pending_live hs hrest hgroup hb hp⟩

/-- `begin_shutdown` marks an attached process and drops it from nothing: at rest, a barrier awaits a
process that is draining. -/
theorem shutdown_awaits_drained : ∃ s, machine.Reachable s ∧ s.AtRest ∧
    ∃ group b, s.groups.lookup allProcesses = some group ∧ group.barriers.lookup "b" = some b ∧
      7 ∈ b.processesPending ∧ s.draining 7 = true := by
  obtain ⟨s, hs, hrest, hpending, hd⟩ :
      ∃ s, machine.Reachable s ∧ s.AtRest ∧ pendingIn s allProcesses "b" 7 = true ∧
        s.draining 7 = true :=
    exists_reachable_of_exec
      (awaitExternal ++ [.beginShutdown, .task .cancelInvitations, .task .drainAttached,
        .task (.mark 7)]) rfl (by decide +kernel)
  obtain ⟨group, hgroup, hb⟩ := (any_eq_true _ _).1 hpending
  obtain ⟨b, hb, hp⟩ := (any_eq_true _ _).1 hb
  exact ⟨s, hs, hrest, group, b, hgroup, hb, by simpa using hp, hd⟩

end Sintra.Process.Coordinator
