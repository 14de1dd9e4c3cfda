import Sintra.Lib.Memberships
import Sintra.Process.Registry

/-!
# External processes and the standard groups

`Tables` is the relation of groups and processes alone. `Membership` is all that the claim of an
invitation commits: the coordinator's books, the groups with their members, and the draining and
collective shutdown states. `add_external_process_to_standard_groups` enters the process into the two
standard groups, creates and publishes those that are missing, and takes back what it has done when a
group cannot be published. What it does to the tables does not depend on the rest
(`ensureGroup_tables`, `addExternalProcessToStandardGroups_spec`).
-/

namespace Sintra.Process

open Function

open Coordinator (Instance managedProcess mprocId allProcesses externalProcesses)
open Registry (Books makeInstanceId makeInstanceId_inj)

/-! ### Groups -/

/-- `m_groups`, each with its instance id and `m_process_ids`, and `m_groups_of_process`. -/
abbrev Tables := Memberships String Instance InstanceId

namespace Tables

/-- The instance id of the group, if it is made.
Source: `coordinator_impl.h`, `Coordinator::make_process_group` -/
def makeProcessGroup (t : Tables) (name : String) (members : Finset InstanceId) (fresh : Instance)
    (published : Bool) : Option Instance × Tables :=
  match t.groups name with
  | some _ => (none, t)
  | none =>
    let t' := t.create name fresh members
    if published then (some fresh, t') else (none, t'.dissolve name)

/-- Source: `ensure_group` of `add_external_process_to_standard_groups` -/
def ensureGroup (t : Tables) (p : InstanceId) (name : String) (members : Finset InstanceId)
    (fresh : Instance) : Tables × Bool :=
  match t.groups name with
  | none => (t.create name fresh members, true)
  | some _ => (t.join name p, false)

/-- Source: `rollback_updates` of `add_external_process_to_standard_groups` -/
def rollbackUpdate (t : Tables) (p : InstanceId) (name : String) (created : Bool) : Tables :=
  if created then t.dissolve name else t.leave name p

/-- Whether the process was added, what the groups are then, and how many instance ids were drawn.
Source: `coordinator_impl.h`, `Coordinator::add_external_process_to_standard_groups` -/
def addExternalProcessToStandardGroups (t : Tables) (p : InstanceId) (drawn : ℕ)
    (publishedAll publishedExternal : Bool) : Bool × Tables × ℕ :=
  let (t₁, created₁) := t.ensureGroup p allProcesses {mprocId, p} (makeInstanceId drawn)
  let drawn₁ := if created₁ then drawn + 1 else drawn
  if created₁ && !publishedAll then (false, t₁.rollbackUpdate p allProcesses created₁, drawn₁)
  else
    let (t₂, created₂) := t₁.ensureGroup p externalProcesses {p} (makeInstanceId drawn₁)
    let drawn₂ := if created₂ then drawn₁ + 1 else drawn₁
    if created₂ && !publishedExternal then
      (false, (t₂.rollbackUpdate p externalProcesses created₂).rollbackUpdate p allProcesses created₁,
        drawn₂)
    else (true, t₂, drawn₂)

/-- The groups `join_swarm` adds its process to. -/
def standard : List String := [allProcesses, externalProcesses]

/-- Both sides agree, and the ids of the groups were drawn. -/
structure Ok (t : Tables) (drawn : ℕ) : Prop where
  memberships : Memberships.Ok t
  drawn : ∀ n i ps, t.groups n = some (i, ps) → ∃ k < drawn, i = makeInstanceId k

variable {t t' : Tables} {drawn drawn' : ℕ} {p : InstanceId}

/-- There is no group yet. -/
theorem ok_empty : Ok ⟨fun _ => none, fun _ => none⟩ 0 where
  memberships := by
    refine ⟨fun p i => ⟨fun hi => absurd hi (Finset.notMem_empty i), ?_⟩, fun _ _ _ _ _ => nofun, fun _ => nofun⟩
    rintro ⟨n, ps, hn, -⟩
    cases hn
  drawn _ _ _ := nofun

theorem Ok.fresh (h : t.Ok drawn) : t.Fresh (makeInstanceId drawn) := by
  intro n ps hn
  obtain ⟨k, hk, heq⟩ := h.drawn n _ ps hn
  rw [makeInstanceId_inj] at heq
  omega

/-- A step that makes no group. -/
theorem Ok.of_groups (h : t.Ok drawn) (hok : Memberships.Ok t') (hdrawn : drawn ≤ drawn')
    (hgroups : ∀ n i ps, t'.groups n = some (i, ps) → ∃ ps', t.groups n = some (i, ps')) :
    t'.Ok drawn' where
  memberships := hok
  drawn n i ps hn := by
    obtain ⟨ps', hn'⟩ := hgroups n i ps hn
    obtain ⟨k, hk, heq⟩ := h.drawn n i ps' hn'
    exact ⟨k, hk.trans_le hdrawn, heq⟩

/-- A group that gets other members keeps its id. -/
theorem groups_update {n name : String} {i j : Instance} {ps qs rs : Finset InstanceId}
    (hname : t.groups name = some (j, qs)) (h : update t.groups name (some (j, rs)) n = some (i, ps)) :
    ∃ ps', t.groups n = some (i, ps') := by
  obtain rfl | hn := eq_or_ne n name
  · cases (update_self _ _ _).symm.trans h
    exact ⟨qs, hname⟩
  · exact ⟨ps, (update_of_ne hn _ _).symm.trans h⟩

theorem Ok.join (h : t.Ok drawn) (name : String) (p : InstanceId) : Ok (t.join name p) drawn := by
  refine h.of_groups (h.memberships.join name p) le_rfl fun n i ps hn => ?_
  unfold Memberships.join at hn
  split at hn
  · exact ⟨ps, hn⟩
  · next hname => exact groups_update hname hn

theorem Ok.leave (h : t.Ok drawn) (name : String) (p : InstanceId) : Ok (t.leave name p) drawn := by
  refine h.of_groups (h.memberships.leave name p) le_rfl fun n i ps hn => ?_
  unfold Memberships.leave at hn
  split at hn
  · exact ⟨ps, hn⟩
  · next hname => exact groups_update hname hn

theorem Ok.create (h : t.Ok drawn) {name : String} (hname : t.groups name = none)
    (members : Finset InstanceId) : Ok (t.create name (makeInstanceId drawn) members) (drawn + 1) where
  memberships := h.memberships.create hname h.fresh members
  drawn n i ps hn := by
    obtain rfl | heq := eq_or_ne n name
    · cases (update_self _ _ _).symm.trans hn
      exact ⟨drawn, Nat.lt_succ_self _, rfl⟩
    · obtain ⟨k, hk, heq⟩ := h.drawn n i ps ((update_of_ne heq _ _).symm.trans hn)
      exact ⟨k, Nat.lt_succ_of_lt hk, heq⟩

theorem Ok.forget (h : t.Ok drawn) (p : InstanceId) : Ok (t.forget p) drawn :=
  h.of_groups (h.memberships.forget p) le_rfl fun _ _ _ hn => by
    obtain ⟨ps, hps, -⟩ := Memberships.mem_forget_groups.1 hn
    exact ⟨ps, hps⟩

theorem Ok.mono (h : t.Ok drawn) (hdrawn : drawn ≤ drawn') : t.Ok drawn' :=
  h.of_groups h.memberships hdrawn fun _ _ ps hn => ⟨ps, hn⟩

/-! ### Calls that fail -/

/-- A group that cannot be published is not made. -/
theorem makeProcessGroup_spec (h : t.Ok drawn) (name : String) (members : Finset InstanceId)
    (published : Bool) {result : Option Instance × Tables}
    (hresult : t.makeProcessGroup name members (makeInstanceId drawn) published = result) :
    (result.1 = none → result.2 = t) ∧
      result.2.Ok (if (t.groups name).isSome then drawn else drawn + 1) := by
  subst hresult
  unfold makeProcessGroup
  cases hname : t.groups name with
  | some g => exact ⟨fun _ => rfl, h⟩
  | none =>
    dsimp only
    cases published with
    | true => exact ⟨nofun, h.create hname members⟩
    | false =>
      rw [if_neg Bool.false_ne_true]
      have heq := Memberships.dissolve_create h.memberships hname h.fresh members
      rw [heq]
      exact ⟨fun _ => rfl, h.mono (Nat.le_succ _)⟩

/-- What an update of a group does, and that it can be taken back: both sides agree then, and are as they
were if the process was not in the group. -/
theorem ensureGroup_spec (h : t.Ok drawn) (p : InstanceId) (name : String)
    (members : Finset InstanceId) {t' : Tables} {created : Bool}
    (heq : t.ensureGroup p name members (makeInstanceId drawn) = (t', created)) :
    t'.Ok (if created then drawn + 1 else drawn) ∧ (t'.rollbackUpdate p name created).Ok drawn ∧
      ((created = false → ∀ i ps, t.groups name = some (i, ps) → p ∉ ps) →
        t'.rollbackUpdate p name created = t) := by
  unfold ensureGroup at heq
  split at heq
  · next hname =>
      cases heq
      have hback := Memberships.dissolve_create h.memberships hname h.fresh members
      refine ⟨h.create hname members, ?_, fun _ => hback⟩
      change Ok (Memberships.dissolve _ name) drawn
      rwa [hback]
  · next g hname =>
      cases heq
      obtain ⟨i, ps⟩ := g
      refine ⟨h.join name p, (h.join name p).leave name p, fun hp => ?_⟩
      exact Memberships.leave_join h.memberships hname (hp rfl i ps hname)

/-- Without an entry a process is in no group. -/
theorem Ok.notMem_of_entries (h : t.Ok drawn) (hp : t.entries p = none) {n : String} {i : Instance}
    {ps : Finset InstanceId} (hn : t.groups n = some (i, ps)) : p ∉ ps := by
  rw [h.memberships.mem_iff hn, hp]
  exact Finset.notMem_empty i

/-- Both sides agree after the call, and if it fails for a process in no group they are as they were. -/
theorem addExternalProcessToStandardGroups_spec (h : t.Ok drawn) (p : InstanceId)
    (publishedAll publishedExternal : Bool) {result : Bool × Tables × ℕ}
    (hresult : t.addExternalProcessToStandardGroups p drawn publishedAll publishedExternal = result) :
    (result.1 = false → t.entries p = none → result.2.1 = t) ∧ result.2.1.Ok result.2.2 ∧
      drawn ≤ result.2.2 := by
  unfold addExternalProcessToStandardGroups at hresult
  obtain ⟨⟨t₁, created₁⟩, h₁⟩ : ∃ x, t.ensureGroup p allProcesses {mprocId, p} (makeInstanceId drawn) = x :=
    ⟨_, rfl⟩
  obtain ⟨hok₁, hagree₁, hback₁⟩ := ensureGroup_spec h p allProcesses _ h₁
  rw [h₁] at hresult
  dsimp only at hresult
  have hle₁ : drawn ≤ if created₁ then drawn + 1 else drawn := by split <;> omega
  by_cases hfail₁ : (created₁ && !publishedAll) = true
  · rw [if_pos hfail₁] at hresult
    subst hresult
    exact ⟨fun _ hp => hback₁ fun _ i ps hn => h.notMem_of_entries hp hn, hagree₁.mono hle₁, hle₁⟩
  rw [if_neg hfail₁] at hresult
  generalize (if created₁ then drawn + 1 else drawn) = drawn₁ at *
  obtain ⟨⟨t₂, created₂⟩, h₂⟩ : ∃ x, t₁.ensureGroup p externalProcesses {p} (makeInstanceId drawn₁) = x :=
    ⟨_, rfl⟩
  obtain ⟨hok₂, -, hback₂⟩ := ensureGroup_spec hok₁ p externalProcesses _ h₂
  rw [h₂] at hresult
  dsimp only at hresult
  have hle₂ : drawn₁ ≤ if created₂ then drawn₁ + 1 else drawn₁ := by split <;> omega
  by_cases hfail₂ : (created₂ && !publishedExternal) = true
  · rw [if_pos hfail₂] at hresult
    subst hresult
    have heq₂ := hback₂ fun hcreated => by
      rw [hcreated] at hfail₂
      cases hfail₂
    rw [heq₂]
    exact ⟨fun _ hp => hback₁ fun _ i ps hn => h.notMem_of_entries hp hn,
      hagree₁.mono (hle₁.trans hle₂), hle₁.trans hle₂⟩
  · rw [if_neg hfail₂] at hresult
    subst hresult
    exact ⟨nofun, hok₂, hle₁.trans hle₂⟩

end Tables

namespace Invitations

/-- Source: `coordinator.h`, `Process_group` -/
structure Group where
  instanceId : Instance
  published : Bool
  processIds : Finset InstanceId

structure Membership where
  books : Books
  /-- `m_groups` -/
  groups : String → Option Group
  /-- `m_groups_of_process` -/
  groupsOfProcess : InstanceId → Finset Instance
  /-- `m_draining_process_states` -/
  draining : InstanceId → Bool
  /-- `m_collective_shutdown_process_states` -/
  inCollectiveShutdown : InstanceId → Bool

/-- Source: `group_update` of `add_external_process_to_standard_groups` -/
structure GroupUpdate where
  name : String
  groupIid : Instance
  members : Finset InstanceId
  created : Bool

namespace Membership

/-- The members are recorded as members of the group. -/
def recordMembers (m : Membership) (members : Finset InstanceId) (groupIid : Instance) : Membership :=
  { m with groupsOfProcess := fun p =>
      if p ∈ members then insert groupIid (m.groupsOfProcess p) else m.groupsOfProcess p }

/-- Source: `erase_group_membership` of `add_external_process_to_standard_groups` -/
def eraseGroupMembership (m : Membership) (members : Finset InstanceId) (groupIid : Instance) :
    Membership :=
  { m with groupsOfProcess := fun p =>
      if p ∈ members then (m.groupsOfProcess p).erase groupIid else m.groupsOfProcess p }

def setGroup (m : Membership) (name : String) (group : Option Group) : Membership :=
  { m with groups := update m.groups name group }

/-- A group is created and recorded, and published if its publication is accepted.
Source: `ensure_group` of `add_external_process_to_standard_groups`,
`Coordinator::publish_process_group` -/
def createGroup (m : Membership) (name : String) (groupIid : Instance) (typeId : ℕ)
    (members : Finset InstanceId) : Membership × Bool :=
  let created := m.recordMembers members groupIid
  match m.books.publishTransceiver groupIid ⟨typeId, name, .unbound⟩ with
  | some books =>
    ({ created with books := books }.setGroup name (some ⟨groupIid, true, members⟩), true)
  | none => (created.setGroup name (some ⟨groupIid, false, members⟩), false)

/-- The process is added to the group, or the group is created with the members; `fresh` is the
instance id of a new group.
Source: `ensure_group` of `add_external_process_to_standard_groups` -/
def ensureGroup (m : Membership) (p : InstanceId) (name : String) (members : Finset InstanceId)
    (fresh : Instance) (typeId : ℕ) : Membership × GroupUpdate × Bool :=
  match m.groups name with
  | none =>
    let (m', published) := m.createGroup name fresh typeId members
    (m', ⟨name, fresh, members, true⟩, published)
  | some group =>
    (((m.recordMembers {p} group.instanceId).setGroup name
      (some { group with processIds := insert p group.processIds })),
      ⟨name, group.instanceId, {p}, false⟩, true)

/-- Source: `coordinator_impl.h`, `Coordinator::unpublish_process_group` -/
def unpublishProcessGroup (m : Membership) (group : Group) : Membership :=
  match group.published, m.books.publicationOf group.instanceId none with
  | true, some publication =>
    { m with books := m.books.unpublishInstance group.instanceId publication }
  | _, _ => m

/-- Source: `rollback_updates` of `add_external_process_to_standard_groups` -/
def rollbackUpdate (m : Membership) (p : InstanceId) (update : GroupUpdate) : Membership :=
  match m.groups update.name with
  | none => m
  | some group =>
    if update.created then
      ((m.unpublishProcessGroup group).eraseGroupMembership update.members update.groupIid).setGroup
        update.name none
    else
      (m.eraseGroupMembership {p} update.groupIid).setGroup update.name
        (some { group with processIds := group.processIds.erase p })

/-- `none` when a group could not be published; the second component is what is left then, the third
how many instance ids have been drawn.
Source: `coordinator_impl.h`, `Coordinator::add_external_process_to_standard_groups` -/
def addExternalProcessToStandardGroups (m : Membership) (p : InstanceId) (drawn typeId : ℕ) :
    Bool × Membership × ℕ :=
  let (m₁, u₁, ok₁) := m.ensureGroup p allProcesses {mprocId, p} (makeInstanceId drawn) typeId
  let drawn₁ := if u₁.created then drawn + 1 else drawn
  if ok₁ = false then (false, m₁.rollbackUpdate p u₁, drawn₁)
  else
    let (m₂, u₂, ok₂) := m₁.ensureGroup p externalProcesses {p} (makeInstanceId drawn₁) typeId
    let drawn₂ := if u₂.created then drawn₁ + 1 else drawn₁
    if ok₂ = false then (false, (m₂.rollbackUpdate p u₂).rollbackUpdate p u₁, drawn₂)
    else (true, m₂, drawn₂)

end Membership

/-! ### Taking back an update -/

section

variable {m : Membership} {p : InstanceId}

variable {i : Instance} {name : String} {members : Finset InstanceId}

namespace Membership

/-- The groups and the records alone. -/
def tables (m : Membership) : Tables where
  groups n := (m.groups n).map fun group => (group.instanceId, group.processIds)
  entries p := if m.groupsOfProcess p = ∅ then none else some (m.groupsOfProcess p)

/-- Attached processes are registered, both sides agree who is a member of which group, and groups have
instance ids of their own, drawn so far. -/
structure Ok (m : Membership) (drawn : ℕ) : Prop where
  attached : ∀ p, (m.books.attached p).isSome → (m.books.registry p).isSome
  tables : m.tables.Ok drawn

theorem groups_tables {ps : Finset InstanceId} : m.tables.groups name = some (i, ps) ↔
    ∃ group, m.groups name = some group ∧ group.instanceId = i ∧ group.processIds = ps := by
  simp only [tables, Option.map_eq_some_iff, Prod.mk.injEq]

theorem entries_tables (m : Membership) (p : InstanceId) :
    (m.tables.entries p).getD ∅ = m.groupsOfProcess p := by
  unfold tables
  dsimp only
  split_ifs with hempty
  · exact hempty.symm
  · rfl

theorem tables_recordMembers (m : Membership) (members : Finset InstanceId) (i : Instance) :
    (m.recordMembers members i).tables = m.tables.record members i := by
  refine congrArg (Memberships.mk _) (funext fun q => ?_)
  by_cases hq : q ∈ members
  · simp only [recordMembers, if_pos hq, Finset.insert_ne_empty, if_false, Memberships.enterId,
      entries_tables]
  · simp only [recordMembers, if_neg hq]
    rfl

theorem tables_setGroup (m : Membership) (name : String) (group : Group) :
    (m.setGroup name (some group)).tables =
      m.tables.setGroup name (some (group.instanceId, group.processIds)) :=
  congrArg (Memberships.mk · _) (comp_update (Option.map _) m.groups name (some group))

/-- What an update does to the groups and the records, and that only a new group can fail to be
published. -/
theorem ensureGroup_tables (m : Membership) (p : InstanceId) (name : String)
    (members : Finset InstanceId) (fresh : Instance) (typeId : ℕ) :
    let r := m.ensureGroup p name members fresh typeId
    m.tables.ensureGroup p name members fresh = (r.1.tables, r.2.1.created) ∧
      (r.2.2 = false → r.2.1.created = true) := by
  unfold Tables.ensureGroup ensureGroup
  cases hgroup : m.groups name with
  | none =>
    have htables : m.tables.groups name = none := congrArg (Option.map _) hgroup
    rw [htables]
    refine ⟨Prod.ext ?_ rfl, fun _ => rfl⟩
    show m.tables.create name fresh members = (m.createGroup name fresh typeId members).1.tables
    rw [Memberships.create, ← tables_recordMembers]
    cases hpub : m.books.publishTransceiver fresh ⟨typeId, name, .unbound⟩ with
    | none =>
      simp only [createGroup, hpub]
      rw [tables_setGroup]
    | some books =>
      simp only [createGroup, hpub]
      rw [tables_setGroup]
      rfl
  | some group =>
    rw [groups_tables.2 ⟨group, hgroup, rfl, rfl⟩]
    refine ⟨Prod.ext ?_ rfl, nofun⟩
    show m.tables.join name p = _
    rw [Memberships.join, groups_tables.2 ⟨group, hgroup, rfl, rfl⟩, tables_setGroup,
      tables_recordMembers]

end Membership

theorem eraseGroupMembership_recordMembers (h : ∀ q ∈ members, i ∉ m.groupsOfProcess q) :
    (m.recordMembers members i).eraseGroupMembership members i = m := by
  obtain ⟨books, groups, groupsOfProcess, draining, inCollectiveShutdown⟩ := m
  simp only [Membership.recordMembers, Membership.eraseGroupMembership, Membership.mk.injEq, true_and,
    and_true]
  funext q
  by_cases hq : q ∈ members
  · rw [if_pos hq, if_pos hq, Finset.erase_insert (h q hq)]
  · rw [if_neg hq, if_neg hq]

variable {entry : Registry.TransceiverPublication}

theorem erase_insert {r : Registry.ProcessRegistry}
    (h : i ∉ r) : (r.insert i entry).erase i = r := by
  refine AList.ext ?_
  change (r.insert i entry).entries.kerase i = r.entries
  rw [AList.entries_insert_of_notMem h]
  exact List.kerase_cons_eq rfl

/-- A publication that is taken back leaves nothing. -/
theorem unpublishInstance_publishTransceiver {b b' : Books}
    (h : b.publishTransceiver i entry = some b')
    (hmanaged : i ≠ managedProcess i.process) : b'.unpublishInstance i entry = b := by
  obtain ⟨processRegistry, rfl, hknown | ⟨-, -, hmanaged'⟩, -, hfresh, hfree⟩ :=
    Books.publishTransceiver_eq_some h
  · have hregistry : update b.registry i.process
        (some ((processRegistry.insert i entry).erase i)) = b.registry := by
      rw [erase_insert hfresh, ← hknown, update_eq_self]
    have hnames : update b.names entry.name none = b.names := by
      rw [← hfree, update_eq_self]
    simp only [Books.enter, Books.unpublishInstance, update_self, update_idem,
      Option.map_some, hregistry, hnames]
  · exact absurd hmanaged' hmanaged

/-- The members and the group entered by an update are taken back. -/
theorem setGroup_eraseGroupMembership (h : ∀ q ∈ members, i ∉ m.groupsOfProcess q) (name : String)
    (group : Option Group) :
    (((m.recordMembers members i).setGroup name group).eraseGroupMembership members i).setGroup name
      (m.groups name) = m := by
  change (((m.recordMembers members i).eraseGroupMembership members i).setGroup name group).setGroup
    name (m.groups name) = m
  rw [eraseGroupMembership_recordMembers h, Membership.setGroup, Membership.setGroup,
    update_idem, update_eq_self]

/-- Taking back the update of a group restores what was there before it. -/
theorem rollbackUpdate_ensureGroup {fresh : Instance} (typeId : ℕ)
    (hmanaged : fresh ≠ managedProcess fresh.process)
    (hfresh : ∀ q ∈ members, fresh ∉ m.groupsOfProcess q)
    (hnew : ∀ group, m.groups name = some group →
      p ∉ group.processIds ∧ group.instanceId ∉ m.groupsOfProcess p) :
    (m.ensureGroup p name members fresh typeId).1.rollbackUpdate p
      (m.ensureGroup p name members fresh typeId).2.1 = m := by
  cases hgroup : m.groups name with
  | none =>
    have htaken := setGroup_eraseGroupMembership hfresh name
    rw [hgroup] at htaken
    cases hpub : m.books.publishTransceiver fresh ⟨typeId, name, .unbound⟩ with
    | none =>
      simp only [Membership.ensureGroup, hgroup, Membership.createGroup, hpub,
        Membership.rollbackUpdate, Membership.setGroup, update_self, if_true,
        Membership.unpublishProcessGroup]
      exact htaken _
    | some books =>
      have hpublication : books.publicationOf fresh none = some ⟨typeId, name, .unbound⟩ := by
        rw [Books.publicationOf, (Books.publication_publishTransceiver hpub).2,
          update_self]
        simp [hmanaged]
      simp only [Membership.ensureGroup, hgroup, Membership.createGroup, hpub,
        Membership.rollbackUpdate, Membership.setGroup, update_self, if_true,
        Membership.unpublishProcessGroup, hpublication,
        unpublishInstance_publishTransceiver hpub hmanaged]
      exact htaken _
  | some group =>
    obtain ⟨hmember, hrecord⟩ := hnew group hgroup
    have hsingle : ∀ q ∈ ({p} : Finset InstanceId), group.instanceId ∉ m.groupsOfProcess q := by
      intro q hq
      rwa [Finset.mem_singleton.1 hq]
    have htaken := setGroup_eraseGroupMembership hsingle name
      (some { group with processIds := insert p group.processIds })
    rw [hgroup] at htaken
    simp only [Membership.ensureGroup, hgroup, Membership.rollbackUpdate, Membership.setGroup,
      update_self, Bool.false_eq_true, if_false, Finset.erase_insert hmember]
    exact htaken

/-! ### Groups keep their instance ids -/

namespace Membership.Ok

variable {drawn drawn' : ℕ} {name : String} {members : Finset InstanceId}

theorem mono (h : m.Ok drawn) (hle : drawn ≤ drawn') : m.Ok drawn' :=
  ⟨h.attached, h.tables.mono hle⟩

/-- The next instance id belongs to no group. -/
theorem fresh_notMem (h : m.Ok drawn) (q : InstanceId) : makeInstanceId drawn ∉ m.groupsOfProcess q := by
  rw [← entries_tables]
  exact h.tables.memberships.notMem_of_fresh h.tables.fresh q

/-- A process that is not a member of a group is not recorded for it. -/
theorem notMem_of_notMem (h : m.Ok drawn) {group : Group} (hgroup : m.groups name = some group)
    (hp : p ∉ group.processIds) : group.instanceId ∉ m.groupsOfProcess p := by
  rw [← entries_tables]
  rwa [← h.tables.memberships.mem_iff (groups_tables.2 ⟨group, hgroup, rfl, rfl⟩)]

theorem ensureGroup (h : m.Ok drawn) (p : InstanceId) (name : String) (members : Finset InstanceId)
    (typeId : ℕ) :
    (m.ensureGroup p name members (makeInstanceId drawn) typeId).1.Ok
      (if (m.ensureGroup p name members (makeInstanceId drawn) typeId).2.1.created then drawn + 1
        else drawn) := by
  obtain ⟨htables, -⟩ := m.ensureGroup_tables p name members (makeInstanceId drawn) typeId
  refine ⟨?_, (Tables.ensureGroup_spec h.tables p name members htables).1⟩
  cases hgroup : m.groups name with
  | some group =>
    simp only [Membership.ensureGroup, hgroup]
    exact h.attached
  | none =>
    cases hpub : m.books.publishTransceiver (makeInstanceId drawn) ⟨typeId, name, .unbound⟩ with
    | none =>
      simp only [Membership.ensureGroup, hgroup, Membership.createGroup, hpub]
      exact h.attached
    | some books =>
      simp only [Membership.ensureGroup, hgroup, Membership.createGroup, hpub]
      intro q hq
      obtain ⟨processRegistry, rfl, -⟩ := Books.publishTransceiver_eq_some hpub
      by_cases hown : q = mprocId
      · simp [Membership.setGroup, Books.enter, makeInstanceId, hown]
      · simpa [Membership.setGroup, Books.enter, makeInstanceId, hown] using h.attached q hq

/-- An update of a group the process is not in can be taken back. -/
theorem rollbackUpdate (h : m.Ok drawn) (members : Finset InstanceId) (typeId : ℕ)
    (hp : ∀ group, m.groups name = some group → p ∉ group.processIds) :
    (m.ensureGroup p name members (makeInstanceId drawn) typeId).1.rollbackUpdate p
      (m.ensureGroup p name members (makeInstanceId drawn) typeId).2.1 = m :=
  rollbackUpdate_ensureGroup typeId (Registry.makeInstanceId_ne_managedProcess _ _)
    (fun q _ => h.fresh_notMem q)
    fun group hgroup => ⟨hp group hgroup, h.notMem_of_notMem hgroup (hp group hgroup)⟩

end Membership.Ok

/-- An update concerns the group of its name, the process and the members only. -/
theorem ensureGroup_frame {fresh : Instance} {typeId : ℕ} : let m' :=(m.ensureGroup p name members fresh typeId).1
    (∀ g ≠ name, m'.groups g = m.groups g) ∧
      ∀ q ∉ members, q ≠ p → m'.groupsOfProcess q = m.groupsOfProcess q := by
  cases hgroup : m.groups name with
  | none =>
    cases hpub : m.books.publishTransceiver fresh ⟨typeId, name, .unbound⟩ <;>
      simp +contextual [Membership.ensureGroup, hgroup, Membership.createGroup, hpub,
        Membership.setGroup, Membership.recordMembers]
  | some group =>
    simp +contextual [Membership.ensureGroup, hgroup, Membership.setGroup, Membership.recordMembers]

/-- The process is added to the groups, or nothing has changed: when a group cannot be published,
everything is as it was, if the process was in no group. -/
theorem addExternalProcessToStandardGroups_spec {drawn : ℕ} (h : m.Ok drawn)
    (hp : m.groupsOfProcess p = ∅) (typeId : ℕ) :
    ((m.addExternalProcessToStandardGroups p drawn typeId).1 = false →
      (m.addExternalProcessToStandardGroups p drawn typeId).2.1 = m) ∧
    (m.addExternalProcessToStandardGroups p drawn typeId).2.1.Ok
      (m.addExternalProcessToStandardGroups p drawn typeId).2.2 ∧
    drawn ≤ (m.addExternalProcessToStandardGroups p drawn typeId).2.2 ∧
    ∀ q, q ≠ p → q ≠ mprocId →
      (m.addExternalProcessToStandardGroups p drawn typeId).2.1.groupsOfProcess q =
        m.groupsOfProcess q := by
  have hnone : ∀ g group, m.groups g = some group → p ∉ group.processIds := fun g group hg =>
    h.tables.notMem_of_entries (if_pos hp) (Membership.groups_tables.2 ⟨group, hg, rfl, rfl⟩)
  have hok₁ := h.ensureGroup p allProcesses {mprocId, p} typeId
  have hback₁ := h.rollbackUpdate {mprocId, p} typeId (hnone allProcesses)
  have hgroup₁ : (m.ensureGroup p allProcesses {mprocId, p} (makeInstanceId drawn) typeId).1.groups
      externalProcesses = m.groups externalProcesses := ensureGroup_frame.1 _ (by decide)
  have hother₁ : ∀ q, q ≠ p → q ≠ mprocId → (m.ensureGroup p allProcesses {mprocId, p}
      (makeInstanceId drawn) typeId).1.groupsOfProcess q = m.groupsOfProcess q :=
    fun q hq hown => ensureGroup_frame.2 q (by simp [hq, hown]) hq
  unfold Membership.addExternalProcessToStandardGroups
  generalize m.ensureGroup p allProcesses {mprocId, p} (makeInstanceId drawn) typeId = r₁ at *
  obtain ⟨m₁, u₁, ok₁⟩ := r₁
  dsimp only at *
  have hback₂ := hok₁.rollbackUpdate {p} typeId (fun group hgroup =>
    hnone externalProcesses group (hgroup₁.symm.trans hgroup))
  have hok₂ := hok₁.ensureGroup p externalProcesses {p} typeId
  have hother₂ : ∀ q, q ≠ p → (m₁.ensureGroup p externalProcesses {p}
      (makeInstanceId (if u₁.created = true then drawn + 1 else drawn)) typeId).1.groupsOfProcess q =
        m₁.groupsOfProcess q :=
    fun q hq => ensureGroup_frame.2 q (by simpa using hq) hq
  generalize m₁.ensureGroup p externalProcesses {p}
    (makeInstanceId (if u₁.created = true then drawn + 1 else drawn)) typeId = r₂ at *
  obtain ⟨m₂, u₂, ok₂⟩ := r₂
  dsimp only at *
  have hle₁ : drawn ≤ if u₁.created = true then drawn + 1 else drawn := by
    split <;> omega
  generalize (if u₁.created = true then drawn + 1 else drawn) = drawn₁ at *
  have hle₂ : drawn₁ ≤ if u₂.created = true then drawn₁ + 1 else drawn₁ := by
    split <;> omega
  by_cases hfail₁ : ok₁ = false
  · rw [if_pos hfail₁]
    dsimp only
    rw [hback₁]
    exact ⟨fun _ => rfl, h.mono hle₁, hle₁, fun _ _ _ => rfl⟩
  · rw [if_neg hfail₁]
    by_cases hfail₂ : ok₂ = false
    · rw [if_pos hfail₂]
      dsimp only
      rw [hback₂, hback₁]
      exact ⟨fun _ => rfl, h.mono (hle₁.trans hle₂), hle₁.trans hle₂, fun _ _ _ => rfl⟩
    · rw [if_neg hfail₂]
      exact ⟨nofun, hok₂, hle₁.trans hle₂,
        fun q hq hown => (hother₂ q hq).trans (hother₁ q hq hown)⟩

/-- The groups and the records after the call are those of the call on the tables alone, where it is left
open whether a new group can be published. -/
theorem addExternalProcessToStandardGroups_tables {drawn typeId : ℕ} (h : m.Ok drawn)
    (hp : m.groupsOfProcess p = ∅) {result : Bool × Membership × ℕ}
    (hresult : m.addExternalProcessToStandardGroups p drawn typeId = result) :
    ∃ publishedAll publishedExternal,
      m.tables.addExternalProcessToStandardGroups p drawn publishedAll publishedExternal =
        (result.1, result.2.1.tables, result.2.2) := by
  have hunchanged : result.1 = false → result.2.1 = m :=
    hresult ▸ (addExternalProcessToStandardGroups_spec h hp typeId).1
  have hspec := fun a b hfail => (Tables.addExternalProcessToStandardGroups_spec
    h.tables p a b rfl).1 hfail (if_pos hp)
  obtain ⟨htables₁, hcreated₁⟩ :=
    m.ensureGroup_tables p allProcesses {mprocId, p} (makeInstanceId drawn) typeId
  unfold Tables.addExternalProcessToStandardGroups at hspec ⊢
  unfold Membership.addExternalProcessToStandardGroups at hresult
  rw [htables₁] at hspec ⊢
  generalize m.ensureGroup p allProcesses {mprocId, p} (makeInstanceId drawn) typeId = e₁ at *
  obtain ⟨m₁, u₁, ok₁⟩ := e₁
  dsimp only at *
  generalize (if u₁.created = true then drawn + 1 else drawn) = drawn₁ at *
  obtain ⟨htables₂, hcreated₂⟩ :=
    m₁.ensureGroup_tables p externalProcesses {p} (makeInstanceId drawn₁) typeId
  rw [htables₂] at hspec ⊢
  generalize m₁.ensureGroup p externalProcesses {p} (makeInstanceId drawn₁) typeId = e₂ at *
  obtain ⟨m₂, u₂, ok₂⟩ := e₂
  dsimp only at *
  refine ⟨ok₁, ok₂, ?_⟩
  specialize hspec ok₁ ok₂
  subst hresult
  cases ok₁ <;> cases ok₂ <;> simp_all

end

end Invitations

end Sintra.Process
