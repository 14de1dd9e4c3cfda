import Sintra.Process.Coordinator

/-!
# A fresh occurrence of a process is active

When the coordinator accepts the `Managed_process` of a process, a new occurrence of it begins, and
its draining and collective shutdown states should be clear, whatever the occurrence before it left
behind. `publish_transceiver` clears them only when it makes the registry entry of the process.
Unpublication removes the entry and leaves the process marked as draining; the launch of the next
occurrence makes the entry again; if the child publishes itself after that, nothing is cleared.
-/

namespace Sintra.Process.Coordinator

open State Option

/-- The states of the slot are clear. -/
def State.Active (s : State) (p : InstanceId) : Prop :=
  s.draining p = false ∧ s.inCollectiveShutdown p = false

/-- The processes the coordinator waits for: in the registry, joining, or in the group of all
processes. Source: `coordinator_impl.h`, `Coordinator::collect_known_process_candidates_unlocked` -/
def State.Known (s : State) (p : InstanceId) : Prop :=
  (s.registry.lookup p).isSome ∨ .enlist p ∈ s.tasks ∨ .launch p ∈ s.tasks ∨
    ∃ group, s.groups.lookup allProcesses = some group ∧ p ∈ group.processIds

/-- Source: `coordinator_impl.h`, `Coordinator::all_known_processes_draining_unlocked` -/
def State.AllKnownProcessesDraining (s : State) : Prop := ∀ p, s.Known p → s.draining p = true

/-- A `Managed_process` is published by a process that has no registry entry or is not marked. -/
def FreshPublication (s : State) : Action → Prop
  | .publishTransceiver iid _ _ =>
    iid = managedProcess iid.process → (s.registry.lookup iid.process).isNone ∨ s.Active iid.process
  | _ => True

instance (s : State) (a : Action) : Decidable (FreshPublication s a) :=
  match a with
  | .publishTransceiver iid _ _ =>
    inferInstanceAs (Decidable (_ → _ ∨ (s.draining iid.process = false ∧ _)))
  | .barrier .. | .check .. | .arrive .. | .unpublishTransceiver .. | .spawn .. |
    .beginProcessDraining .. | .beginCollectiveShutdown .. | .beginShutdown | .makeProcessGroup .. |
    .joinSwarm | .launched .. | .releaseCustody .. | .reserveInvitation .. | .cancelInvitation .. |
    .expireInvitation .. | .claimInvitation .. | .attach | .work | .task .. => isTrue trivial

section

variable {s s' : State}

variable {p : InstanceId}

/-- A step that admits a process is an accepted publication of its `Managed_process`. -/
theorem publish_of_admitted {a : Action} (hstep : machine.step s a = some s')
    (hp : s'.admitted = some p) :
    ∃ assignedName readerIdentity s₁,
      a = .publishTransceiver (managedProcess p) assignedName readerIdentity ∧
        s.publishTransceiver (managedProcess p) assignedName readerIdentity = some s₁ ∧
        s' = { s₁ with admitted := some p } := by
  obtain ⟨s₁, hnext, rfl⟩ := map_eq_some_iff.1 hstep
  have hadmits : s.admits a = some p := hp
  cases a with
  | publishTransceiver iid assignedName readerIdentity =>
    have haccepts := hadmits
    simp only [admits, ite_none_right_eq_some, some.injEq] at haccepts
    obtain ⟨⟨hiid, haccepted⟩, rfl⟩ := haccepts
    obtain ⟨s₂, hs₂⟩ := isSome_iff_exists.1 haccepted
    simp only [next, hs₂, getD_some, ite_none_right_eq_some,
      some.injEq] at hnext
    obtain ⟨-, rfl⟩ := hnext
    rw [← hiid]
    exact ⟨assignedName, readerIdentity, s₂, rfl, hs₂, by rw [hadmits]⟩
  | _ => cases hadmits

/-- At an accepted publication of a `Managed_process`, the process ends up active exactly under the
condition, and it is known in any case. -/
theorem active_iff_freshPublication {a : Action}
    (hstep : machine.step s a = some s') (hp : s'.admitted = some p) :
    (s'.Active p ↔ FreshPublication s a) ∧ s'.Known p := by
  obtain ⟨assignedName, readerIdentity, s₁, rfl, hpublish, rfl⟩ := publish_of_admitted hstep hp
  obtain ⟨names, processRegistry, ⟨hknown, rfl⟩ | ⟨hnone, rfl⟩⟩ :=
    publishTransceiver_cases hpublish
  · refine ⟨⟨fun hactive _ => .inr hactive, fun hfresh => ?_⟩, .inl ?_⟩
    · obtain hentry | hactive := hfresh rfl
      · exact absurd hknown (by simp [isNone_iff_eq_none.1 hentry])
      · exact hactive
    · exact (congrArg isSome (AList.lookup_insert _)).trans rfl
  · refine ⟨⟨fun _ _ => .inl (by rw [hnone]; rfl), fun _ => ⟨?_, ?_⟩⟩, .inl ?_⟩
    · exact Function.update_self _ _ _
    · exact Function.update_self _ _ _
    · exact (congrArg isSome (AList.lookup_insert _)).trans rfl

/-- An active process is in every new round of a barrier of its groups. -/
theorem State.Active.not_absent (h : s.Active p) (n : String) :
    ProcessGroup.absent s.draining s.inCollectiveShutdown n p = false := by
  obtain ⟨hd, hc⟩ := h
  simp [ProcessGroup.absent, hd, hc]

theorem State.Active.not_allKnownProcessesDraining (h : s.Active p)
    (hknown : s.Known p) : ¬s.AllKnownProcessesDraining := by
  intro hall
  exact absurd (hall p hknown) (by simp [h.1])

end

/-- **A fresh occurrence is active.** In every run in which each `Managed_process` is published
without a registry entry or with clear states: right after one is accepted, its process is not
draining and not in collective shutdown, no barrier leaves it out and not all processes are drained.
And at each acceptance, in any run, the condition is what decides. -/
theorem fresh_occurrence_active (s : State) :
    (machine.ReachableUnder FreshPublication s → ∀ p, s.admitted = some p →
      s.Active p ∧
        (∀ n, ProcessGroup.absent s.draining s.inCollectiveShutdown n p = false) ∧
        ¬s.AllKnownProcessesDraining) ∧
    (machine.Reachable s → ∀ a s' p, machine.step s a = some s' → s'.admitted = some p →
      (s'.Active p ↔ FreshPublication s a)) := by
  constructor
  · intro hs p hp
    cases hs with
    | init h =>
      obtain rfl : s = initial := h
      cases hp
    | step _ hfresh hstep =>
      obtain ⟨hiff, hknown⟩ := active_iff_freshPublication hstep hp
      have hactive := hiff.2 hfresh
      exact ⟨hactive, hactive.not_absent, hactive.not_allKnownProcessesDraining hknown⟩
  · intro _ a s' p hstep hp
    exact (active_iff_freshPublication hstep hp).1

/-- A managed child is spawned, publishes itself, and is unpublished after a crash. -/
def crashOnce : List Action :=
  [.spawn 3, .publishTransceiver (managedProcess 3) "child" (.managedChild 1 0),
    .unpublishTransceiver (managedProcess 3) (some (.managedChild 1 0)), .work]

/-- The respawned child is faster than its launch: it publishes itself before the entry is made. -/
theorem fresh_occurrence_active_respawned : ∃ s, machine.ReachableUnder FreshPublication s ∧
    s.admitted = some 3 ∧ s.Active 3 := by
  obtain ⟨s, hs, hp⟩ : ∃ s, machine.ReachableUnder FreshPublication s ∧ s.admitted = some 3 :=
    Machine.exists_reachableUnder_of_exec
      (crashOnce ++ [.publishTransceiver (managedProcess 3) "child" (.managedChild 1 1)]) rfl
      (by decide +kernel)
  exact ⟨s, hs, hp, ((fresh_occurrence_active s).1 hs 3 hp).1⟩

/-- The launch makes the entry first: the respawned child is accepted and is still marked as
draining. -/
theorem respawned_drained : ∃ s, machine.Reachable s ∧ s.admitted = some 3 ∧ s.draining 3 = true :=
  Machine.exists_reachable_of_exec
    (crashOnce ++
      [.spawn 3, .publishTransceiver (managedProcess 3) "child" (.managedChild 1 1)]) rfl
    (by decide +kernel)

end Sintra.Process.Coordinator
