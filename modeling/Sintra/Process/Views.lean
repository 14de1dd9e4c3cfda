import Sintra.Lib.Updates
import Sintra.Process.Deferrals
import Sintra.Process.StandardGroups

/-!
# The coordinator's sections in its several models

Each model of the coordinator keeps what its properties need. Where two of them have the same section
of the source, it does the same in both: `Keeps` is about publications, `Shares` about the standard
groups, `Awaits` about those who wait for a name.
-/

namespace Sintra.Process

open Function Updates

open Coordinator (Instance managedProcess Publication ReaderIdentity)
open Registry (Books ProcessRegistry TransceiverPublication Waited makeInstanceId)

/-! ### Publications -/

/-- The publication without its type, as `Coordinator.State` keeps it. -/
def untyped (entry : TransceiverPublication) : Publication := ⟨entry.name, entry.readerIdentity⟩

/-- The same instances are published, as the same but for the types. -/
structure SameEntries (r : AList fun _ : Instance => Publication) (r' : ProcessRegistry) : Prop where
  keys : r.keys = r'.keys
  lookup : ∀ i, r.lookup i = (r'.lookup i).map untyped

/-- The registry, the names and the attached occurrences of the coordinator are those of the books. -/
structure Keeps (s : Coordinator.State) (b : Books) : Prop where
  registry : ∀ p, Option.Rel SameEntries (s.registry.lookup p) (b.registry p)
  names : s.names = b.names
  attached : ∀ p, s.attached.lookup p = b.attached p

section

variable {s : Coordinator.State} {b : Books} {r : AList fun _ : Instance => Publication}
  {r' : ProcessRegistry}

/-- A publication is entered in both. -/
theorem SameEntries.insert (h : SameEntries r r') (iid : Instance) (entry : TransceiverPublication) :
    SameEntries (r.insert iid (untyped entry)) (r'.insert iid entry) where
  keys := by rw [AList.keys_insert, AList.keys_insert, h.keys]
  lookup i := by
    rw [lookup_insert_eq, lookup_insert_eq]
    exact update_rel (R := (· = Option.map untyped ·)) h.lookup (by rfl) i

/-- A publication is erased in both. -/
theorem SameEntries.erase (h : SameEntries r r') (iid : Instance) :
    SameEntries (r.erase iid) (r'.erase iid) where
  keys := by rw [AList.keys_erase, AList.keys_erase, h.keys]
  lookup i := by
    rw [lookup_erase_eq, lookup_erase_eq]
    exact update_rel (R := (· = Option.map untyped ·)) h.lookup (by rfl) i

/-- The registry entry of one process is set in both. -/
theorem Keeps.registry_insert (h : Keeps s b) (hr : SameEntries r r') (p q : InstanceId) :
    Option.Rel SameEntries ((s.registry.insert p r).lookup q) (update b.registry p (some r') q) := by
  rw [lookup_insert_eq]
  exact update_rel h.registry (.some hr) q

/-- A publication in the name of an external process is checked alike. -/
theorem Keeps.identityAttached (h : Keeps s b) (p : InstanceId) (identity : ReaderIdentity) :
    s.identityAttached p identity = b.identityAttached p identity := by
  cases identity <;> simp [Coordinator.State.identityAttached, Books.identityAttached, h.attached]

/-- `publish_transceiver_with_reader_identity` accepts the same publications and enters them alike. -/
theorem Keeps.publishTransceiver (h : Keeps s b) (iid : Instance) (entry : TransceiverPublication) :
    Option.Rel Keeps (s.publishTransceiver iid entry.name entry.readerIdentity)
      (b.publishTransceiver iid entry) := by
  unfold Coordinator.State.publishTransceiver Books.publishTransceiver
  rw [h.identityAttached, h.names]
  have hentry := h.registry iid.process
  generalize s.registry.lookup iid.process = o, b.registry iid.process = o' at hentry
  simp only [Bool.or_eq_true, decide_eq_true_eq]
  split
  · exact .none
  cases hentry with
  | none =>
    dsimp only
    split
    · exact .none
    · have hempty : SameEntries ∅ ∅ := ⟨rfl, fun _ => rfl⟩
      exact .some ⟨h.registry_insert (hempty.insert iid entry) _, rfl, h.attached⟩
  | @some r r' hr =>
    have hfresh : (r.lookup iid).isSome = true ↔ iid ∈ r' := by
      rw [hr.lookup, Option.isSome_map, AList.lookup_isSome]
    simp only [hr.keys, hfresh, or_assoc]
    split
    · exact .none
    · exact .some ⟨h.registry_insert (hr.insert iid entry) _, rfl, h.attached⟩

/-- `unpublish_transceiver_exact` finds the same publication. -/
theorem Keeps.publicationOf (h : Keeps s b) (iid : Instance) (expected : Option ReaderIdentity) :
    s.publicationOf iid expected = (b.publicationOf iid expected).map untyped := by
  unfold Coordinator.State.publicationOf Books.publicationOf Books.publication
  have hentry := h.registry iid.process
  generalize s.registry.lookup iid.process = o, b.registry iid.process = o' at hentry
  cases hentry with
  | none => rfl
  | @some r r' hr =>
    simp only [Option.bind_eq_bind, Option.bind_some, hr.lookup]
    cases r'.lookup iid with
    | none => rfl
    | some publication =>
      simp only [Option.map_some, Option.bind_some, h.identityAttached, untyped, guard, Option.filter,
        decide_eq_true_eq]
      split_ifs <;> first | rfl | tauto

/-- A transceiver is unpublished in both. -/
theorem Keeps.unpublishInstance (h : Keeps s b) (iid : Instance) (entry : TransceiverPublication) :
    Keeps (s.unpublishInstance iid (untyped entry)) (b.unpublishInstance iid entry) := by
  refine ⟨fun p => ?_, by rw [Coordinator.State.unpublishInstance, h.names]; rfl, h.attached⟩
  have hentry := h.registry iid.process
  unfold Coordinator.State.unpublishInstance Books.unpublishInstance
  generalize s.registry.lookup iid.process = o, hb : b.registry iid.process = o' at hentry
  cases hentry with
  | none =>
    rw [Option.map_none, ← hb, update_eq_self]
    exact h.registry p
  | some hr => exact h.registry_insert (hr.erase iid) _ p

/-- A process is unpublished in both. -/
theorem Keeps.unpublishProcess (h : Keeps s b) (p : InstanceId) :
    Keeps (s.unpublishProcess p) (b.unpublishProcess p) := by
  unfold Coordinator.State.unpublishProcess
  rw [h.names]
  refine ⟨fun q => ?_, rfl, fun q => ?_⟩
  · change Option.Rel SameEntries ((s.registry.erase p).lookup q) _
    rw [lookup_erase_eq]
    exact update_rel h.registry .none q
  · change (s.attached.erase p).lookup q = _
    rw [lookup_erase_eq]
    exact update_rel h.attached rfl q

end

variable {κ : Type*} [DecidableEq κ] {s t : Registry.State κ}

/-! ### The standard groups -/

/-- The group is the same but for its members. -/
def SameGroup (x : Option Registry.Group) (y : Option Invitations.Group) : Prop :=
  x.map (fun g => (makeInstanceId g.drawn, g.published)) = y.map fun g => (g.instanceId, g.published)

/-- The books are the same, and so are the groups but for their members. -/
structure Shares (s : Registry.State κ) (m : Invitations.Membership) : Prop where
  books : s.books = m.books
  groups : ∀ n, SameGroup (s.groups n) (m.groups n)

/-- `ensure_group` of `add_external_process_to_standard_groups` does the same to both. -/
theorem Shares.ensureGroup {m : Invitations.Membership} (h : Shares s m)
    (hfree : s.notificationsMutex = none) (th : Registry.Thread κ) (p : InstanceId) (g : String)
    (todo : List String) (updates : List Registry.GroupUpdate) (members : Finset InstanceId)
    (typeId : ℕ) :
    ∃ t, s.ensureGroup th p g todo updates typeId = some t ∧
      Shares t (m.ensureGroup p g members (makeInstanceId s.drawn) typeId).1 := by
  have hgroup := h.groups g
  have hset {x y} := update_rel (R := SameGroup) (a := g) (b := x) (c := y) h.groups
  unfold Registry.State.ensureGroup Invitations.Membership.ensureGroup
  cases hs : s.groups g with
  | some x =>
    obtain ⟨y, hy, hxy⟩ := Option.map_eq_some_iff.1 (hgroup.symm.trans (congrArg (Option.map _) hs))
    rw [hy]
    refine ⟨_, rfl, h.books, ?_⟩
    change ∀ n, SameGroup (s.groups n) _
    rw [← update_eq_self g s.groups, hs]
    exact hset (congrArg some hxy.symm)
  | none =>
    rw [Option.map_eq_none_iff.1 (hgroup.symm.trans (congrArg (Option.map _) hs))]
    refine ⟨_, if_neg (by simp [hfree]), ?_⟩
    unfold Registry.State.publishProcessGroup Registry.State.publishTransceiver
      Invitations.Membership.createGroup
    change Shares (Option.getD (Option.map _ (s.books.publishTransceiver _ _)) _) _
    rw [h.books]
    cases m.books.publishTransceiver (makeInstanceId s.drawn) ⟨typeId, g, .unbound⟩ with
    | none => exact ⟨h.books, hset rfl⟩
    | some books => exact ⟨rfl, hset rfl⟩

/-! ### Waiting for a name -/

/-- Those who wait, under the ids of the model of deferrals. -/
def info (ids : Instance → InstanceId) (w : Waited) : Deferrals.WaitedInstanceInfo :=
  ⟨w.waiters.toFinset.image ids, ids w.commonFunctionIid⟩

/-- The same names are published, and the same callers wait for a name under the same id. -/
structure Awaits (ids : Instance → InstanceId) (s : Registry.State κ) (d : Deferrals.State) : Prop where
  names : ∀ n, d.tables.instanceIdOfAssignedName n = (s.books.names n).map ids
  waited : ∀ n, d.tables.instancesWaited n = (s.waits.waited n).map (info ids)

variable {ids : Instance → InstanceId} {d : Deferrals.State}

omit [DecidableEq κ] in
/-- `wait_for_instance` answers in both, or lets the caller wait in both. -/
theorem Awaits.waitForInstance (h : Awaits ids s d) (hidle : (s.threads .service).idle = true)
    (name : String) (sender functionIid : Instance)
    (hfresh : ids (makeInstanceId s.drawn) = d.nextIid + 1) :
    ∃ t, s.waitForInstance name sender functionIid = some t ∧
      Awaits ids t (d.waitForInstance (ids sender) name) := by
  unfold Registry.State.waitForInstance Deferrals.State.waitForInstance
  rw [hidle, h.names]
  cases s.books.names name with
  | some iid => exact ⟨_, rfl, h.names, h.waited⟩
  | none =>
    have hinfo : (d.call (ids sender)).waitedInfo name =
        info ids ((s.waits.waited name).getD ⟨[], makeInstanceId s.drawn⟩) := by
      change (d.tables.instancesWaited name).getD ⟨∅, d.nextIid + 1⟩ = _
      rw [h.waited, ← hfresh]
      cases s.waits.waited name <;> simp [info]
    have hinsert : ∀ l : List Instance, (l.insert sender).toFinset = insert sender l.toFinset :=
      fun l => by ext; simp
    refine ⟨_, rfl, h.names, update_rel (R := (· = Option.map (info ids) ·)) h.waited ?_⟩
    rw [hinfo]
    simp [info, hinsert]

/-- A publication takes those who wait for its name in both. -/
theorem Awaits.published (h : Awaits ids s d) {th : Registry.Thread κ} {iid : Instance}
    {entry : TransceiverPublication} {task : Registry.Task} {cont : Registry.Cont}
    (ht : s.publishTransceiver th iid entry task cont = some t) (reply : Option Deferrals.Answer) :
    Awaits ids t (d.published entry.name (ids iid) reply) := by
  obtain ⟨books, hbooks, rfl⟩ := Option.map_eq_some_iff.1 ht
  obtain ⟨r, rfl, -, -, -, hname⟩ := Books.publishTransceiver_eq_some hbooks
  unfold Deferrals.State.published
  rw [h.names, hname]
  exact ⟨update_rel (R := (· = Option.map ids ·)) h.names rfl,
    update_rel (R := (· = Option.map (info ids) ·)) h.waited rfl⟩

end Sintra.Process
