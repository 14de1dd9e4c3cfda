import Sintra.Process.Coordinator

/-!
# The coordinator's books: registry and names

`m_transceiver_registry` keeps the publications of each process, `m_instance_id_of_assigned_name`
the instance of each published name, and `m_external_attached_processes` the attached occurrences.
They are written together under `m_publish_mutex`, by publication, unpublication, the launch of a
process and the claim of an invitation.

* `Agree.publishTransceiver`, `Agree.unpublishInstance`, `Agree.unpublishProcess`,
  `Agree.register`, `Agree.withdraw` — every operation keeps the agreement. The withdrawal of a
  failed claim drops a registry entry without its names, so the process has to be `Vacant`.

Sources without a file name are in `coordinator_impl.h`.
-/

namespace Sintra.Process.Registry

open Function Option

open Coordinator (Instance managedProcess ReaderIdentity maxPublicTransceiversPerProc mprocId)

/-- Source: `coordinator.h`, `Transceiver_publication` -/
structure TransceiverPublication where
  typeId : ℕ
  name : String
  readerIdentity : ReaderIdentity
  deriving DecidableEq

/-- The publications of one process. -/
abbrev ProcessRegistry := AList fun _ : Instance => TransceiverPublication

structure Books where
  /-- `m_transceiver_registry` -/
  registry : InstanceId → Option ProcessRegistry
  /-- `m_instance_id_of_assigned_name` -/
  names : String → Option Instance
  /-- `m_external_attached_processes` -/
  attached : InstanceId → Option ℕ

namespace Books

/-- The books with the coordinator's own process registered.
Source: `managed_process_impl.h`, `Managed_process::init` -/
def initial : Books where
  registry := update (fun _ => none) mprocId (some ∅)
  names := fun _ => none
  attached := fun _ => none

/-- What is published under the instance. -/
def publication (b : Books) (iid : Instance) : Option TransceiverPublication :=
  (b.registry iid.process).bind (·.lookup iid)

/-! ### Operations -/

/-- A publication in the name of an external process is that of the attached occurrence. -/
def identityAttached (b : Books) (p : InstanceId) : ReaderIdentity → Bool
  | .externalProcess occurrence => b.attached p = some occurrence
  | _ => true

/-- The name and the publication are entered. -/
def enter (b : Books) (iid : Instance) (entry : TransceiverPublication)
    (processRegistry : ProcessRegistry) : Books :=
  { b with
    names := update b.names entry.name (some iid)
    registry := update b.registry iid.process (some (processRegistry.insert iid entry)) }

/-- `none` when the publication is refused. A process becomes known by the publication of its
`Managed_process`.
Source: `Coordinator::publish_transceiver_with_reader_identity` -/
def publishTransceiver (b : Books) (iid : Instance) (entry : TransceiverPublication) :
    Option Books :=
  if entry.name = "" ∨ !b.identityAttached iid.process entry.readerIdentity then none
  else
    match b.registry iid.process with
    | some processRegistry =>
      if maxPublicTransceiversPerProc ≤ processRegistry.keys.length ∨ iid ∈ processRegistry ∨
          (b.names entry.name).isSome then none
      else some (b.enter iid entry processRegistry)
    | none =>
      if iid ≠ managedProcess iid.process ∨ (b.names entry.name).isSome then none
      else some (b.enter iid entry ∅)

/-- The publication an unpublication is about, if it may go on.
Source: `Coordinator::unpublish_transceiver_exact` -/
def publicationOf (b : Books) (iid : Instance) (expectedIdentity : Option ReaderIdentity) :
    Option TransceiverPublication :=
  (b.publication iid).filter fun publication =>
    (expectedIdentity = none ∨ expectedIdentity = some publication.readerIdentity) ∧
      (iid ≠ managedProcess iid.process ∨
        b.identityAttached iid.process publication.readerIdentity = true)

/-- A transceiver that is not a `Managed_process` loses its name and its publication.
Source: `Coordinator::unpublish_transceiver_exact` -/
def unpublishInstance (b : Books) (iid : Instance) (publication : TransceiverPublication) : Books :=
  { b with
    names := update b.names publication.name none
    registry := update b.registry iid.process
      ((b.registry iid.process).map (·.erase iid)) }

/-- A process loses all its names, its registry entry and its attachment.
Source: `Coordinator::unpublish_transceiver_exact` -/
def unpublishProcess (b : Books) (p : InstanceId) : Books where
  registry := update b.registry p none
  names := fun n => (b.names n).filter fun iid => iid.process ≠ p
  attached := update b.attached p none

/-- The process has a registry entry, as it was or empty.
Source: `managed_process_impl.h`, `Managed_process::spawn_swarm_process_impl` -/
def register (b : Books) (p : InstanceId) : Books :=
  { b with registry := update b.registry p (some ((b.registry p).getD ∅)) }

/-- The occurrence of an external process is attached.
Source: `Coordinator::claim_external_process_invitation` -/
def attach (b : Books) (p : InstanceId) (occurrence : ℕ) : Books :=
  { b.register p with attached := update b.attached p (some occurrence) }

/-- The end of a claim that fails after the process was attached.
Source: `Coordinator::claim_external_process_invitation` -/
def withdraw (b : Books) (p : InstanceId) : Books :=
  { b with
    registry := update b.registry p none
    attached := update b.attached p none }

/-! ### Processes without publications -/

/-- Nothing is published by the process. -/
def Vacant (b : Books) (p : InstanceId) : Prop := ∀ r, b.registry p = some r → r = ∅

namespace Vacant

variable {b b' : Books} {p q : InstanceId}

theorem of_update {r' : Option ProcessRegistry} (h : b.Vacant p)
    (hreg : b'.registry = update b.registry q r') (hnew : p = q → ∀ r, r' = some r → r = ∅) :
    b'.Vacant p := by
  intro r hr
  rw [hreg] at hr
  by_cases hp : p = q
  · rw [hp, update_self] at hr
    exact hnew hp r hr
  · rw [update_of_ne hp] at hr
    exact h r hr

theorem enter {iid : Instance} {entry : TransceiverPublication} {processRegistry : ProcessRegistry}
    (h : b.Vacant p) (hp : p ≠ iid.process) : (b.enter iid entry processRegistry).Vacant p :=
  h.of_update rfl fun heq => absurd heq hp

theorem unpublishInstance (h : b.Vacant p) (iid : Instance) (publication : TransceiverPublication) :
    (b.unpublishInstance iid publication).Vacant p := by
  refine h.of_update rfl fun hp r hr => ?_
  obtain ⟨r₀, hr₀, rfl⟩ := map_eq_some_iff.1 hr
  rw [h r₀ (hp ▸ hr₀)]
  rfl

theorem unpublishProcess (h : b.Vacant p) (q : InstanceId) : (b.unpublishProcess q).Vacant p :=
  h.of_update rfl fun _ _ hr => by cases hr

theorem register (h : b.Vacant p) (q : InstanceId) : (b.register q).Vacant p := by
  refine h.of_update rfl fun hp r hr => ?_
  cases hr
  cases hreg : b.registry q with
  | none => rfl
  | some r => exact h r (hp ▸ hreg)

theorem attach (h : b.Vacant p) (q : InstanceId) (occurrence : ℕ) :
    (b.attach q occurrence).Vacant p := h.register q

theorem withdraw (h : b.Vacant p) (q : InstanceId) : (b.withdraw q).Vacant p :=
  h.of_update rfl fun _ _ hr => by cases hr

end Vacant

/-! ### What is published after each operation -/

section

variable {b b' : Books} {iid : Instance} {entry : TransceiverPublication} {p : InstanceId}

/-- What an accepted publication has found and done. -/
theorem publishTransceiver_eq_some (h : b.publishTransceiver iid entry = some b') :
    ∃ processRegistry, b' = b.enter iid entry processRegistry ∧
      (b.registry iid.process = some processRegistry ∨
        b.registry iid.process = none ∧ processRegistry = ∅ ∧ iid = managedProcess iid.process) ∧
      processRegistry.keys.length < maxPublicTransceiversPerProc ∧ iid ∉ processRegistry ∧
      b.names entry.name = none := by
  unfold publishTransceiver at h
  split at h
  · cases h
  · split at h
    · next processRegistry hknown =>
        rw [ite_none_left_eq_some, some.injEq] at h
        obtain ⟨hok, rfl⟩ := h
        simp only [not_or, not_le, not_isSome_iff_eq_none] at hok
        exact ⟨processRegistry, rfl, .inl hknown, hok⟩
    · next hunknown =>
        rw [ite_none_left_eq_some, some.injEq] at h
        obtain ⟨hok, rfl⟩ := h
        simp only [not_or, not_not, not_isSome_iff_eq_none] at hok
        exact ⟨∅, rfl, .inr ⟨hunknown, rfl, hok.1⟩, by decide, AList.notMem_empty iid, hok.2⟩

theorem publication_enter {processRegistry : ProcessRegistry}
    (hknown : (b.registry iid.process).getD ∅ = processRegistry) :
    (b.enter iid entry processRegistry).publication =
      update b.publication iid (some entry) := by
  funext i
  obtain rfl | hi := eq_or_ne i iid
  · simp [publication, enter]
  · rw [update_of_ne hi]
    by_cases hp : i.process = iid.process
    · simp only [publication, enter, hp, update_self, bind_some,
        AList.lookup_insert_ne hi]
      cases hreg : b.registry iid.process with
      | none | some r => simp [← hknown, hreg]
    · simp [publication, enter, hp]

/-- An accepted publication adds just itself, under a name that was free. -/
theorem publication_publishTransceiver (h : b.publishTransceiver iid entry = some b') :
    b.publication iid = none ∧
      b'.publication = update b.publication iid (some entry) := by
  obtain ⟨processRegistry, rfl, hknown, -, hfresh, -⟩ := publishTransceiver_eq_some h
  refine ⟨?_, publication_enter ?_⟩
  · obtain hknown | ⟨hknown, -⟩ := hknown <;> simp [publication, hknown, AList.lookup_eq_none.2 hfresh]
  · obtain hknown | ⟨hknown, rfl, -⟩ := hknown <;> simp [hknown]

theorem publication_unpublishInstance (publication : TransceiverPublication) :
    (b.unpublishInstance iid publication).publication = update b.publication iid none := by
  funext i
  obtain rfl | hi := eq_or_ne i iid
  · cases hreg : b.registry i.process <;> simp [Books.publication, unpublishInstance, hreg]
  · rw [update_of_ne hi]
    by_cases hp : i.process = iid.process
    · cases hreg : b.registry iid.process <;>
        simp [Books.publication, unpublishInstance, hp, hreg, AList.lookup_erase_ne hi]
    · simp [Books.publication, unpublishInstance, hp]

theorem publication_unpublishProcess (i : Instance) :
    (b.unpublishProcess p).publication i = if i.process = p then none else b.publication i := by
  split
  all_goals next hp => simp [publication, unpublishProcess, hp]

@[simp] theorem publication_register : (b.register p).publication = b.publication := by
  funext i
  obtain rfl | hp := eq_or_ne i.process p
  · cases hreg : b.registry i.process <;> simp [publication, register, hreg]
  · simp [publication, register, hp]

theorem publication_withdraw (hvacant : b.Vacant p) : (b.withdraw p).publication = b.publication := by
  funext i
  obtain rfl | hp := eq_or_ne i.process p
  · cases hreg : b.registry i.process with
    | none => simp [publication, withdraw, hreg]
    | some r => simp [publication, withdraw, hreg, hvacant r hreg]
  · simp [publication, withdraw, hp]

theorem publicationOf_eq_some {expectedIdentity : Option ReaderIdentity}
    {publication : TransceiverPublication}
    (h : b.publicationOf iid expectedIdentity = some publication) :
    b.publication iid = some publication ∧
      (expectedIdentity = none ∨ expectedIdentity = some publication.readerIdentity) := by
  rw [publicationOf, filter_eq_some_iff] at h
  exact ⟨h.1, (of_decide_eq_true h.2).1⟩

end

/-! ### Agreement -/

/-- The names and the publications are each other's inverse, each publication stands under its own
process, and no process has more than its share. -/
structure Agree (b : Books) : Prop where
  names_iff : ∀ n i, b.names n = some i ↔ ∃ entry, b.publication i = some entry ∧ entry.name = n
  home : ∀ p r, b.registry p = some r → ∀ i ∈ r, i.process = p
  size : ∀ p r, b.registry p = some r → r.keys.length ≤ maxPublicTransceiversPerProc

theorem registry_initial {p : InstanceId} {r : ProcessRegistry} (hr : initial.registry p = some r) :
    r = ∅ := by
  by_cases hp : p = mprocId <;> simp [initial, hp] at hr
  exact hr.symm

theorem agree_initial : initial.Agree where
  names_iff n i := by
    by_cases hp : i.process = mprocId <;> simp [initial, publication, hp]
  home p r hr i hi := by
    rw [registry_initial hr] at hi
    exact absurd hi (AList.notMem_empty i)
  size p r hr := by
    rw [registry_initial hr]
    decide

namespace Agree

variable {b b' : Books} {iid : Instance} {entry : TransceiverPublication} {p : InstanceId}

/-- No two publications share a name. -/
theorem name_inj (h : b.Agree) {i j : Instance} {e e' : TransceiverPublication}
    (hi : b.publication i = some e) (hj : b.publication j = some e') (hname : e.name = e'.name) :
    i = j := by
  have hni : b.names e'.name = some i := (h.names_iff _ _).2 ⟨e, hi, hname⟩
  have hnj : b.names e'.name = some j := (h.names_iff _ _).2 ⟨e', hj, rfl⟩
  exact mem_unique hni hnj

/-- A registry entry that is not the one of an operation is as it was, and the one that is comes
from the old one. -/
theorem of_update {r' : Option ProcessRegistry} (h : b.Agree)
    (hnames : ∀ n i, b'.names n = some i ↔ ∃ e, b'.publication i = some e ∧ e.name = n)
    (hreg : b'.registry = update b.registry p r') (hnew : ∀ r, r' = some r →
      (∀ i ∈ r, i.process = p) ∧ r.keys.length ≤ maxPublicTransceiversPerProc) : b'.Agree where
  names_iff := hnames
  home q r hr := by
    rw [hreg] at hr
    obtain rfl | hq := eq_or_ne q p
    · exact (hnew r (by simpa using hr)).1
    · exact h.home q r (by simpa [hq] using hr)
  size q r hr := by
    rw [hreg] at hr
    obtain rfl | hq := eq_or_ne q p
    · exact (hnew r (by simpa using hr)).2
    · exact h.size q r (by simpa [hq] using hr)

theorem publishTransceiver (h : b.Agree) (hpub : b.publishTransceiver iid entry = some b') :
    b'.Agree := by
  have hpublication := (publication_publishTransceiver hpub).2
  obtain ⟨processRegistry, rfl, hknown, hsize, hfresh, hfree⟩ := publishTransceiver_eq_some hpub
  refine h.of_update (fun n i => ?_) rfl (fun r hr => ?_)
  · rw [hpublication]
    obtain rfl | hi := eq_or_ne i iid
    · by_cases hn : n = entry.name
      · simp [enter, hn]
      · have hne : b.names n ≠ some i := by
          intro hni
          obtain ⟨e, he, -⟩ := (h.names_iff _ _).1 hni
          rw [(publication_publishTransceiver hpub).1] at he
          cases he
        simp [enter, hn, hne, Ne.symm hn]
    · rw [update_of_ne hi]
      obtain rfl | hn := eq_or_ne n entry.name
      · have hnone : ¬∃ e, b.publication i = some e ∧ e.name = entry.name := by
          rw [← h.names_iff, hfree]
          exact nofun
        simp [enter, Ne.symm hi, hnone]
      · simp [enter, hn, h.names_iff]
  · cases hr
    constructor
    · intro i hi
      rw [AList.mem_insert] at hi
      obtain rfl | hi := hi
      · rfl
      · obtain hknown | ⟨-, rfl, -⟩ := hknown
        · exact h.home _ _ hknown i hi
        · exact absurd hi (AList.notMem_empty i)
    · rw [AList.keys_insert, List.erase_of_not_mem (by rwa [← AList.mem_keys]), List.length_cons]
      exact hsize

theorem unpublishInstance (h : b.Agree) (hpub : b.publication iid = some entry) :
    (b.unpublishInstance iid entry).Agree := by
  refine h.of_update (fun n i => ?_) rfl (fun r hr => ?_)
  · rw [publication_unpublishInstance]
    obtain rfl | hi := eq_or_ne i iid
    · by_cases hn : n = entry.name
      · simp [Books.unpublishInstance, hn]
      · have hne : b.names n ≠ some i := by
          intro hni
          obtain ⟨e, he, rfl⟩ := (h.names_iff _ _).1 hni
          rw [hpub, some.injEq] at he
          exact hn (he ▸ rfl)
        simp [Books.unpublishInstance, hn, hne]
    · rw [update_of_ne hi]
      obtain rfl | hn := eq_or_ne n entry.name
      · have hnone : ¬∃ e, b.publication i = some e ∧ e.name = entry.name := by
          rintro ⟨e, he, hname⟩
          exact hi (h.name_inj he hpub hname)
        simp [Books.unpublishInstance, hnone]
      · simp [Books.unpublishInstance, hn, h.names_iff]
  · obtain ⟨r₀, hr₀, rfl⟩ := map_eq_some_iff.1 hr
    refine ⟨fun i hi => h.home _ _ hr₀ i (AList.mem_erase.1 hi).2, ?_⟩
    rw [AList.keys_erase]
    exact List.length_erase_le.trans (h.size _ _ hr₀)

theorem unpublishProcess (h : b.Agree) (p : InstanceId) : (b.unpublishProcess p).Agree := by
  refine h.of_update (fun n i => ?_) rfl (fun r hr => by cases hr)
  rw [publication_unpublishProcess]
  simp only [Books.unpublishProcess, filter_eq_some_iff, h.names_iff, decide_eq_true_eq]
  by_cases hp : i.process = p <;> simp [hp]

theorem register (h : b.Agree) (p : InstanceId) : (b.register p).Agree := by
  refine h.of_update (fun n i => ?_) rfl (fun r hr => ?_)
  · rw [publication_register]
    exact h.names_iff n i
  · cases hr
    cases hreg : b.registry p with
    | none => simp
    | some r => exact ⟨h.home p r hreg, h.size p r hreg⟩

theorem attach (h : b.Agree) (p : InstanceId) (occurrence : ℕ) : (b.attach p occurrence).Agree where
  names_iff := (h.register p).names_iff
  home := (h.register p).home
  size := (h.register p).size

theorem withdraw (h : b.Agree) (hvacant : b.Vacant p) : (b.withdraw p).Agree := by
  refine h.of_update (fun n i => ?_) rfl (fun r hr => by cases hr)
  rw [publication_withdraw hvacant]
  exact h.names_iff n i

end Agree

end Books

end Sintra.Process.Registry
