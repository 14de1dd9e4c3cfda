import Mathlib

/-!
# Process groups and their barriers

`Process_group` of `coordinator.h` / `coordinator_impl.h`: the member processes and the barriers in
flight, each a reusable object with the processes still pending, those that arrived, the mode tag and
the function id common to all deferred replies of the round.

The functions below are the sections of `barrier` and `drop_from_inflight_barriers` that run under
the locks, as functions of the group. What they read from the coordinator (who is draining, who is in
collective shutdown) is an argument.

The maps of the source are `unordered_map` and `unordered_set`: barriers are kept in an association
list with distinct keys, process sets in finite sets, and nothing below depends on an order.

Sources without a file name are in `coordinator_impl.h`.
-/

namespace Sintra.Process

/-- `instance_id_type`; processes and function calls are named by instance ids. -/
abbrev InstanceId := ℕ

/-- Source: `invalid_instance_id` -/
def invalidInstanceId : InstanceId := 0

/-! ### Barrier names -/

/-- Source: `k_processing_phase_barrier_prefix` -/
def processingPhaseBarrierPrefix : String := "_sintra_processing_phase/"

/-- Source: `k_reserved_barrier_prefix` -/
def reservedBarrierPrefix : String := "_sintra_"

/-- Barriers of the library itself, as opposed to those of the user.
Source: `is_lifecycle_internal_barrier_name` -/
def isLifecycleInternalBarrierName (barrierName : String) : Bool :=
  let phase := processingPhaseBarrierPrefix.toList
  let name := barrierName.toList
  let baseName := if phase.isPrefixOf name then name.drop phase.length else name
  reservedBarrierPrefix.toList.isPrefixOf baseName

/-- Which barriers a drop touches. Source: `coordinator.h`, `Barrier_scope` -/
inductive BarrierScope
  | all
  | userOnly
  deriving DecidableEq

/-- The drop passes over a barrier of this name.
Source: `Process_group::drop_from_inflight_barriers` -/
def BarrierScope.skips (scope : BarrierScope) (barrierName : String) : Bool :=
  scope = .userOnly && isLifecycleInternalBarrierName barrierName

/-! ### Barriers -/

/-- A barrier object. `object` stands for its address: the code compares objects by it.
Source: `coordinator.h`, `Process_group::Barrier` -/
structure Barrier where
  object : ℕ
  processesPending : Finset InstanceId
  processesArrived : Finset InstanceId
  modeTag : ℤ
  commonFunctionIid : InstanceId
  deriving DecidableEq

/-- The completion of a round by a drop. Source: `coordinator.h`, `Process_group::Barrier_completion` -/
structure BarrierCompletion where
  commonFunctionIid : InstanceId
  recipients : Finset InstanceId
  deriving DecidableEq

/-- `std::make_shared<Barrier>()`. -/
def Barrier.fresh (object : ℕ) : Barrier where
  object := object
  processesPending := ∅
  processesArrived := ∅
  modeTag := 0
  commonFunctionIid := invalidInstanceId

/-- A new round on a new or reused object: everybody who is not absent is pending. -/
def Barrier.startRound (b : Barrier) (members : Finset InstanceId) (absent : InstanceId → Bool)
    (modeTag : ℤ) (iid : InstanceId) : Barrier :=
  { b with
    processesPending := members.filter fun p => absent p = false
    processesArrived := ∅
    modeTag := modeTag
    commonFunctionIid := iid }

/-- The caller arrives. -/
def Barrier.arrive (b : Barrier) (caller : InstanceId) : Barrier :=
  { b with
    processesArrived := insert caller b.processesArrived
    processesPending := b.processesPending.erase caller }

/-- The process leaves the round. -/
def Barrier.leave (b : Barrier) (p : InstanceId) : Barrier :=
  { b with
    processesPending := b.processesPending.erase p
    processesArrived := b.processesArrived.erase p }

/-- What a drop does to one barrier. -/
inductive DropResult
  | untouched
  | kept (b : Barrier)
  | completed (c : BarrierCompletion)
  deriving DecidableEq

/-- Source: `coordinator_impl.h`, the loop body of `Process_group::drop_from_inflight_barriers` -/
def Barrier.drop (b : Barrier) (p : InstanceId) : DropResult :=
  if p ∉ b.processesPending ∧ p ∉ b.processesArrived then .untouched
  else if (b.leave p).processesPending ≠ ∅ then .kept (b.leave p)
  else .completed
    { commonFunctionIid := b.commonFunctionIid
      recipients :=
        if p ∈ b.processesArrived then insert p (b.leave p).processesArrived
        else (b.leave p).processesArrived }

/-- The three outcomes of a drop. -/
theorem Barrier.drop_cases (b : Barrier) (p : InstanceId) :
    (p ∉ b.processesPending ∧ b.drop p = .untouched) ∨
      ((b.leave p).processesPending ≠ ∅ ∧ b.drop p = .kept (b.leave p)) ∨
      ∃ recipients, (b.leave p).processesPending = ∅ ∧
        (p ∈ b.processesPending ∨ p ∈ b.processesArrived) ∧
        (p ∉ b.processesArrived → recipients = (b.leave p).processesArrived) ∧
        b.drop p = .completed ⟨b.commonFunctionIid, recipients⟩ := by
  by_cases huntouched : p ∉ b.processesPending ∧ p ∉ b.processesArrived
  · exact .inl ⟨huntouched.1, if_pos huntouched⟩
  · by_cases hpending : (b.leave p).processesPending ≠ ∅
    · exact .inr (.inl ⟨hpending, by rw [Barrier.drop, if_neg huntouched, if_pos hpending]⟩)
    · refine .inr (.inr ⟨_, not_not.mp hpending, ?_, fun h => if_neg h,
        by rw [Barrier.drop, if_neg huntouched, if_neg hpending]⟩)
      rwa [not_and_or, not_not, not_not] at huntouched

/-! ### Groups -/

/-- Source: `coordinator.h`, `Process_group::m_process_ids`, `m_barriers` -/
structure ProcessGroup where
  processIds : Finset InstanceId
  barriers : AList fun _ : String => Barrier

namespace ProcessGroup

/-- Who is left out of a new round of this barrier.
Source: `Process_group::barrier` -/
def absent (draining inCollectiveShutdown : InstanceId → Bool) (barrierName : String)
    (p : InstanceId) : Bool :=
  draining p || (!isLifecycleInternalBarrierName barrierName && inCollectiveShutdown p)

/-- The object that stands for the barrier: that of the map, or a new one. -/
def entry (g : ProcessGroup) (barrierName : String) (object : ℕ) : Barrier :=
  (g.barriers.lookup barrierName).getD (Barrier.fresh object)

/-- The round the caller joins: a new one when nobody is pending, else the one in flight, whose mode
has to match. `iid` is what `make_instance_id` returns, `object` the address of a new object.
Source: `Process_group::barrier` -/
def joinRound (g : ProcessGroup) (absent : InstanceId → Bool) (barrierName : String) (modeTag : ℤ)
    (iid : InstanceId) (object : ℕ) : Except String Barrier :=
  let b := g.entry barrierName object
  if b.processesPending = ∅ then
    .ok (b.startRound g.processIds absent modeTag iid)
  else if b.modeTag ≠ modeTag then
    .error ("Barrier mode mismatch for barrier '" ++ barrierName ++
      "'. All participants must use the same barrier mode.")
  else
    .ok b

/-- The first section of `barrier`: the round with the caller arrived in it.
Source: `Process_group::barrier` -/
def barrier (g : ProcessGroup) (absent : InstanceId → Bool) (caller : InstanceId)
    (barrierName : String) (modeTag : ℤ) (iid : InstanceId) (object : ℕ) : Except String Barrier :=
  if caller ∉ g.processIds then
    .error "The caller is not a member of the process group."
  else
    (g.joinRound absent barrierName modeTag iid object).map fun b => b.arrive caller

/-- The barrier object in the map is replaced by its new state. -/
def put (g : ProcessGroup) (barrierName : String) (b : Barrier) : ProcessGroup :=
  { g with barriers := g.barriers.insert barrierName b }

/-- The map entry is erased. -/
def erase (g : ProcessGroup) (barrierName : String) : ProcessGroup :=
  { g with barriers := g.barriers.erase barrierName }

/-- The second section of `barrier`, run by the last arriver: the entry is erased unless the object
is gone or already in its next round.
Source: `Process_group::barrier` -/
def closeRound (g : ProcessGroup) (barrierName : String) (object : ℕ) (iid : InstanceId) :
    ProcessGroup :=
  match g.barriers.lookup barrierName with
  | some b =>
    if b.object = object ∧ b.commonFunctionIid = iid then g.erase barrierName else g
  | none => g

/-- One iteration of `drop_from_inflight_barriers`.
Source: `Process_group::drop_from_inflight_barriers` -/
def dropFromBarrier (g : ProcessGroup) (p : InstanceId) (scope : BarrierScope)
    (barrierName : String) : ProcessGroup :=
  match g.barriers.lookup barrierName with
  | none => g
  | some b =>
    if scope.skips barrierName then g
    else match b.drop p with
      | .untouched => g
      | .kept b' => g.put barrierName b'
      | .completed _ => g.erase barrierName

/-- Source: `Process_group::drop_from_inflight_barriers` -/
def dropFromInflightBarriers (g : ProcessGroup) (p : InstanceId) (scope : BarrierScope) :
    ProcessGroup :=
  g.barriers.keys.foldl (fun g n => g.dropFromBarrier p scope n) g

/-- Source: `coordinator.h`, `Process_group::add_process` -/
def addProcess (g : ProcessGroup) (p : InstanceId) : ProcessGroup :=
  { g with processIds := insert p g.processIds }

/-- Source: `coordinator.h`, `Process_group::remove_process` -/
def removeProcess (g : ProcessGroup) (p : InstanceId) : ProcessGroup :=
  { g with processIds := g.processIds.erase p }

/-! ### Who is awaited -/

/-- `p` is pending in a barrier in flight. -/
def awaits (g : ProcessGroup) (p : InstanceId) : Bool :=
  g.barriers.entries.any fun e => p ∈ e.2.processesPending

variable {g : ProcessGroup} {b : Barrier} {p : InstanceId} {n m : String} {object : ℕ}
    {scope : BarrierScope}

theorem awaits_iff :
    g.awaits p = true ↔ ∃ n b, g.barriers.lookup n = some b ∧ p ∈ b.processesPending := by
  simp only [awaits, List.any_eq_true, decide_eq_true_eq]
  constructor
  · rintro ⟨⟨n, b⟩, hmem, hp⟩
    exact ⟨n, b, AList.mem_lookup_iff.2 hmem, hp⟩
  · rintro ⟨n, b, hb, hp⟩
    exact ⟨⟨n, b⟩, AList.mem_lookup_iff.1 hb, hp⟩

/-- Whatever changes the barriers so that each comes from one that awaited no less awaits no
less. -/
theorem awaits_of_lookup {g' : ProcessGroup} (h : ∀ n b, g'.barriers.lookup n = some b →
      ∃ b₀, g.barriers.lookup n = some b₀ ∧ (p ∈ b.processesPending → p ∈ b₀.processesPending))
    (hp : g'.awaits p = true) : g.awaits p = true := by
  obtain ⟨n, b, hb, hpb⟩ := awaits_iff.1 hp
  obtain ⟨b₀, hb₀, hsub⟩ := h n b hb
  exact awaits_iff.2 ⟨n, b₀, hb₀, hsub hpb⟩

theorem lookup_erase_eq_some (h : (g.erase n).barriers.lookup m = some b) :
    m ≠ n ∧ g.barriers.lookup m = some b := by
  obtain rfl | hmn := eq_or_ne m n
  · simp [erase] at h
  · exact ⟨hmn, by simpa [erase, AList.lookup_erase_ne hmn] using h⟩

theorem lookup_put_eq_some {b b' : Barrier} (h : (g.put n b').barriers.lookup m = some b) :
    m = n ∧ b = b' ∨ m ≠ n ∧ g.barriers.lookup m = some b := by
  obtain rfl | hmn := eq_or_ne m n
  · simpa [put, eq_comm] using h
  · right
    exact ⟨hmn, by simpa [put, AList.lookup_insert_ne hmn] using h⟩

variable {iid : InstanceId}

theorem awaits_closeRound (h : (g.closeRound n object iid).awaits p = true) : g.awaits p = true := by
  refine awaits_of_lookup (fun m b hb => ?_) h
  refine ⟨b, ?_, id⟩
  unfold closeRound at hb
  split at hb
  · split_ifs at hb
    · exact (lookup_erase_eq_some hb).2
    · exact hb
  · exact hb

/-- A barrier after one iteration of a drop of `p`: it was there before, awaits nobody new, and if
the iteration was on it, `p` no longer. -/
theorem lookup_dropFromBarrier (h : (g.dropFromBarrier p scope n).barriers.lookup m = some b) :
    ∃ b₀, g.barriers.lookup m = some b₀ ∧ b.processesPending ⊆ b₀.processesPending ∧
      (m = n → scope.skips n = false → p ∉ b.processesPending) := by
  unfold dropFromBarrier at h
  split at h
  next hnone =>
    refine ⟨b, h, subset_rfl, ?_⟩
    rintro rfl
    simp [hnone] at h
  next b₀ hsome =>
    split_ifs at h with hskip
    · exact ⟨b, h, subset_rfl, fun _ hn => by simp [hn] at hskip⟩
    · rcases b₀.drop_cases p with ⟨hp, hdrop⟩ | ⟨-, hdrop⟩ | ⟨recipients, -, -, -, hdrop⟩
      all_goals rw [hdrop] at h
      · refine ⟨b, h, subset_rfl, ?_⟩
        rintro rfl -
        obtain rfl : b₀ = b := by simpa [hsome] using h
        exact hp
      · obtain ⟨rfl, rfl⟩ | ⟨hmn, hb⟩ := lookup_put_eq_some h
        · exact ⟨b₀, hsome, Finset.erase_subset _ _, fun _ _ => Finset.notMem_erase _ _⟩
        · exact ⟨b, hb, subset_rfl, fun h => absurd h hmn⟩
      · obtain ⟨hmn, hb⟩ := lookup_erase_eq_some h
        exact ⟨b, hb, subset_rfl, fun h => absurd h hmn⟩

/-- The same of the whole drop. -/
theorem lookup_foldl_dropFromBarrier {m : String} (names : List String)
    (h : (names.foldl (fun g n => g.dropFromBarrier p scope n) g).barriers.lookup m = some b) :
    ∃ b₀, g.barriers.lookup m = some b₀ ∧ b.processesPending ⊆ b₀.processesPending ∧
      (m ∈ names → scope.skips m = false → p ∉ b.processesPending) := by
  induction names generalizing g with
  | nil => exact ⟨b, h, subset_rfl, by simp⟩
  | cons n names ih =>
    obtain ⟨b₁, hb₁, hsub, hnames⟩ := ih h
    obtain ⟨b₀, hb₀, hsub₁, hn⟩ := lookup_dropFromBarrier hb₁
    refine ⟨b₀, hb₀, hsub.trans hsub₁, fun hm hskip => ?_⟩
    obtain rfl | hm := List.mem_cons.1 hm
    · exact fun hp => hn rfl hskip (hsub hp)
    · exact hnames hm hskip

@[simp] theorem processIds_dropFromBarrier (g : ProcessGroup) (p : InstanceId) (scope : BarrierScope)
    (n : String) : (g.dropFromBarrier p scope n).processIds = g.processIds := by
  unfold dropFromBarrier
  split
  · rfl
  · split_ifs
    · rfl
    · split <;> rfl

@[simp] theorem processIds_dropFromInflightBarriers (g : ProcessGroup) (p : InstanceId)
    (scope : BarrierScope) : (g.dropFromInflightBarriers p scope).processIds = g.processIds := by
  unfold dropFromInflightBarriers
  generalize g.barriers.keys = names
  induction names generalizing g with
  | nil => rfl
  | cons n names ih => rw [List.foldl_cons, ih, processIds_dropFromBarrier]

@[simp] theorem processIds_closeRound (g : ProcessGroup) (n : String) (object : ℕ)
    (iid : InstanceId) : (g.closeRound n object iid).processIds = g.processIds := by
  unfold closeRound
  split
  · split_ifs <;> rfl
  · rfl

theorem awaits_dropFromInflightBarriers {q : InstanceId}
    (h : (g.dropFromInflightBarriers p scope).awaits q = true) : g.awaits q = true := by
  refine awaits_of_lookup (fun m b hb => ?_) h
  obtain ⟨b₀, hb₀, hsub, -⟩ := lookup_foldl_dropFromBarrier _ hb
  exact ⟨b₀, hb₀, fun hq => hsub hq⟩

/-- After a drop from all barriers, the process is awaited in none. -/
theorem not_awaits_dropFromInflightBarriers (g : ProcessGroup) (p : InstanceId) :
    (g.dropFromInflightBarriers p .all).awaits p = false := by
  refine Bool.eq_false_iff.2 fun h => ?_
  obtain ⟨m, b, hb, hp⟩ := awaits_iff.1 h
  obtain ⟨b₀, hb₀, -, hdropped⟩ := lookup_foldl_dropFromBarrier _ hb
  have hm : m ∈ g.barriers.keys := by
    rw [← AList.mem_keys, ← AList.lookup_isSome, hb₀]
    rfl
  exact hdropped hm (by simp [BarrierScope.skips]) hp

variable {absent : InstanceId → Bool}

/-- The round a caller joins: a new one, or the one in flight. -/
theorem joinRound_cases {modeTag : ℤ} (h : g.joinRound absent n modeTag iid object = .ok b) :
    b = (g.entry n object).startRound g.processIds absent modeTag iid ∨
      g.barriers.lookup n = some b := by
  simp only [joinRound] at h
  split_ifs at h with hpending
  · exact .inl (Except.ok.inj h).symm
  · obtain rfl : g.entry n object = b := Except.ok.inj h
    unfold entry at hpending ⊢
    cases hl : g.barriers.lookup n with
    | none => simp [hl, Barrier.fresh] at hpending
    | some b₀ => exact .inr rfl

/-- A call of `barrier` makes nobody awaited who was not, but the members it found present. -/
theorem awaits_barrier {caller : InstanceId}
    {modeTag : ℤ} (hb : g.barrier absent caller n modeTag iid object = .ok b)
    (h : (g.put n b).awaits p = true) :
    g.awaits p = true ∨ p ∈ g.processIds ∧ absent p = false := by
  obtain ⟨m, b', hb', hp⟩ := awaits_iff.1 h
  obtain ⟨rfl, rfl⟩ | ⟨-, hb'⟩ := lookup_put_eq_some hb'
  · unfold barrier at hb
    split_ifs at hb with hcaller
    obtain ⟨b₀, hjoin, rfl⟩ : ∃ b₀, g.joinRound absent m modeTag iid object = .ok b₀ ∧
        b₀.arrive caller = b' := by
      cases hj : g.joinRound absent m modeTag iid object with
      | error what => simp [hj, Except.map] at hb
      | ok b₀ => exact ⟨b₀, rfl, by simpa [hj, Except.map] using hb⟩
    have hp : p ∈ b₀.processesPending := Finset.mem_of_mem_erase hp
    obtain rfl | hl := joinRound_cases hjoin
    · right
      simpa [Barrier.startRound] using hp
    · exact .inl (awaits_iff.2 ⟨m, b₀, hl, hp⟩)
  · exact .inl (awaits_iff.2 ⟨m, b', hb', hp⟩)

end ProcessGroup

end Sintra.Process
