import Sintra.Lib.Machine

/-!
# The reaper of the native family and external waits

A pass of the reaper enumerates the children of the process and then inspects them one by one. It holds
the family's mutex, but no lock keeps the creator of an external child from its own exact wait, which may
consume the exit at any moment; the creator reports it with `observeReaped` afterwards. A call fails only
with `ECHILD`, for a child that is no longer there. A signal sent to a child changes no status and is
left out.
-/

namespace Sintra.Process.FamilyReaper

open Function Machine

/-- A process id: not a child of this process, or one that runs or has exited. -/
inductive Life
  | absent
  | running
  | exited
  deriving DecidableEq

/-- Source: `native_process_family.h`, `External_native_child`, in its phase `CREATED`. -/
structure External (ι : Type*) where
  processId : ι
  directWaiter : Bool := true
  /-- The original child of the pidfd was consumed by its creator; the id may be used again. -/
  consumed : Bool := false
  deriving DecidableEq

structure State (ι : Type*) where
  life : ι → Life := fun _ => .absent
  externalChildren : List (External ι) := []
  /-- `m_native_family_pidfds` -/
  pidfds : List ι := []
  /-- The children enumerated by the last pass, those inspected, and those it has ahead. -/
  enumerated : List ι := []
  inspected : List ι := []
  rest : List ι := []
  /-- A pass holds the family's mutex. -/
  passing : Bool := false
  /-- `native_error` and `failed_operation` -/
  failed : Option String := none

inductive Action (ι : Type*)
  /-- A child of this process is spawned or adopted. -/
  | birth (p : ι)
  /-- An external child is born and published. While its birth is pending a pass enumerates nothing. -/
  | publishCreated (p : ι)
  | exit (p : ι)
  /-- The creator's own exact wait. -/
  | wait (e : External ι)
  | observeReaped (e : External ι)
  | handoffWaitAuthority (e : External ι)
  | startPass (children : List ι)
  | inspect
  | endPass

variable {ι : Type*} [DecidableEq ι]

namespace State

variable (s : State ι)

/-- Source: `native_process_family.h`, `Native_process_family::fail`, and the end of the pass. -/
def fail (operation : String) : State ι :=
  { s with failed := some operation, passing := false }

/-- The child's exit is consumed, with the pidfd retained for it. -/
def reap (p : ι) : State ι :=
  { s with life := update s.life p .absent, pidfds := s.pidfds.filter (· ≠ p) }

/-- The child is retained by a pidfd. -/
def retain (p : ι) : State ι :=
  if p ∈ s.pidfds then s
  else if s.life p = .absent then s.fail "waitid(owned child before pidfd_open)"
  else { s with pidfds := p :: s.pidfds }

/-- One child of the enumeration.
Source: `native_process_family_impl.h`, `reap_native_family_children` -/
def inspectChild (p : ι) : State ι :=
  match s.externalChildren.find? fun e => e.processId = p && !e.consumed with
  | some e =>
    if e.directWaiter = false ∧ s.life p = .exited then
      { s.reap p with externalChildren := s.externalChildren.erase e }
    else s
  | none =>
    if s.externalChildren.isEmpty then s.retain p
    else
      match s.life p with
      | .absent => s.fail "waitid(individually owned family child)"
      | .exited => s.reap p
      | .running => s.retain p

/-- The beginning of a pass, up to its enumeration: with no external child it first consumes every exit,
and is done if no child is left.
Source: `native_process_family_impl.h`, `reap_native_family_children` -/
def startPass (children : List ι) : State ι :=
  if s.externalChildren.isEmpty then
    let left := children.filter fun p => s.life p = .running
    { s with
      life := fun p => if s.life p = .exited then .absent else s.life p
      pidfds := s.pidfds.filter fun p => s.life p ≠ .exited
      enumerated := left, rest := left, inspected := [], passing := !left.isEmpty }
  else
    { s with enumerated := children, rest := children, inspected := [], passing := true }

/-- An entry is changed in its place. -/
def setExternal (e e' : External ι) : State ι :=
  { s with externalChildren := s.externalChildren.map fun x => if x = e then e' else x }

def step : Action ι → Option (State ι)
  | .birth p =>
    if s.life p = .absent then some { s with life := update s.life p .running } else none
  | .publishCreated p =>
    if s.life p = .absent ∧ s.passing = false then
      some { s with
        life := update s.life p .running
        externalChildren := s.externalChildren ++ [{ processId := p }] }
    else none
  | .exit p => if s.life p = .running then some { s with life := update s.life p .exited } else none
  | .wait e =>
    if e ∈ s.externalChildren ∧ e.directWaiter = true ∧ e.consumed = false ∧
        s.life e.processId = .exited then
      some { s.setExternal e { e with consumed := true } with
        life := update s.life e.processId .absent }
    else none
  | .observeReaped e =>
    if s.passing = false ∧ e ∈ s.externalChildren ∧ e.consumed = true then
      some { s with externalChildren := s.externalChildren.erase e }
    else none
  | .handoffWaitAuthority e =>
    if s.passing = false then some (s.setExternal e { e with directWaiter := false }) else none
  | .startPass children =>
    if s.passing = false ∧ children.Nodup ∧ ∀ p ∈ children, s.life p ≠ .absent then
      some (s.startPass children)
    else none
  | .inspect =>
    match s.passing, s.rest with
    | true, p :: rest => some ({ s with rest := rest, inspected := s.inspected ++ [p] }.inspectChild p)
    | _, _ => none
  | .endPass => if s.passing = true ∧ s.rest = [] then some { s with passing := false } else none

end State

variable (ι) in
/-- An active family, with any children. -/
def machine : Machine (State ι) (Action ι) where
  init s := s = {}
  step := State.step

/-- No creator consumes the exit of a child between its enumeration and its inspection. -/
def NotInspecting (s : State ι) : Action ι → Prop
  | .wait e => e.processId ∉ s.rest
  | _ => True

instance (s : State ι) (a : Action ι) : Decidable (NotInspecting s a) := by
  cases a <;> unfold NotInspecting <;> infer_instance

/-! ### The invariant -/

structure Inv (s : State ι) : Prop where
  failed : s.failed = none
  split : s.enumerated = s.inspected ++ s.rest
  nodup : s.rest.Nodup
  present : ∀ p ∈ s.rest, s.life p ≠ .absent
  idle : s.passing = false → s.rest = []

variable {s t : State ι} {p : ι}

set_option linter.unusedSectionVars false

/-- The inspection of a child that is there changes no other and fails nowhere. -/
theorem State.inspectChild_frame (hp : s.life p ≠ .absent) :
    (s.inspectChild p).failed = s.failed ∧ (s.inspectChild p).enumerated = s.enumerated ∧
    (s.inspectChild p).inspected = s.inspected ∧ (s.inspectChild p).rest = s.rest ∧
    (s.inspectChild p).passing = s.passing ∧ ∀ q, q ≠ p → (s.inspectChild p).life q = s.life q := by
  have hretain : (s.retain p).failed = s.failed ∧ (s.retain p).enumerated = s.enumerated ∧
      (s.retain p).inspected = s.inspected ∧ (s.retain p).rest = s.rest ∧
      (s.retain p).passing = s.passing ∧ ∀ q, q ≠ p → (s.retain p).life q = s.life q := by
    unfold State.retain
    split_ifs
    · exact ⟨rfl, rfl, rfl, rfl, rfl, fun _ _ => rfl⟩
    · exact ⟨rfl, rfl, rfl, rfl, rfl, fun _ _ => rfl⟩
  have hreap (q : ι) (hq : q ≠ p) : update s.life p .absent q = s.life q := update_of_ne hq _ _
  unfold State.inspectChild
  split
  · split_ifs
    · exact ⟨rfl, rfl, rfl, rfl, rfl, hreap⟩
    · exact ⟨rfl, rfl, rfl, rfl, rfl, fun _ _ => rfl⟩
  split_ifs
  · exact hretain
  split
  · next h => exact absurd h hp
  · exact ⟨rfl, rfl, rfl, rfl, rfl, hreap⟩
  · exact hretain

/-- Where the children ahead stay, the pass is as before. -/
theorem Inv.frame (hs : Inv s) (life : ι → Life) (external : List (External ι))
    (hlife : ∀ q ∈ s.rest, life q ≠ .absent) :
    Inv { s with life := life, externalChildren := external } := { hs with present := hlife }

theorem Inv.frame_update (hs : Inv s) (external : List (External ι)) {l : Life}
    (hl : p ∈ s.rest → l ≠ .absent) :
    Inv { s with life := update s.life p l, externalChildren := external } := by
  refine hs.frame _ external fun q hq => ?_
  rcases eq_or_ne q p with rfl | hne
  · simpa using hl hq
  · simpa [hne] using hs.present q hq

theorem Inv.inspect {rest : List ι} (hs : Inv s) (hpass : s.passing = true) (hrest : s.rest = p :: rest) :
    Inv ({ s with rest := rest, inspected := s.inspected ++ [p] }.inspectChild p) := by
  have hnodup := hrest ▸ hs.nodup
  have hpresent := hrest ▸ hs.present
  obtain ⟨hfailed, henumerated, hinspected, hrest', hpassing, hlife⟩ :=
    State.inspectChild_frame (s := { s with rest := rest, inspected := s.inspected ++ [p] })
      (hpresent p List.mem_cons_self)
  refine ⟨hfailed.trans hs.failed, ?_, ?_, fun q hq => ?_, fun h => ?_⟩
  · rw [henumerated, hinspected, hrest', hs.split, hrest]
    simp
  · rw [hrest']
    exact hnodup.of_cons
  · rw [hrest'] at hq
    have hne : q ≠ p := fun h => (List.nodup_cons.mp hnodup).1 (h ▸ hq)
    rw [hlife q hne]
    exact hpresent q (List.mem_cons_of_mem _ hq)
  · rw [hpassing, hpass] at h
    cases h

theorem Inv.startPass (hs : Inv s) {children : List ι} (hnodup : children.Nodup)
    (hpresent : ∀ p ∈ children, s.life p ≠ .absent) : Inv (s.startPass children) := by
  rw [State.startPass]
  split
  · refine ⟨hs.failed, rfl, hnodup.filter _, fun p hp => ?_, fun h => by simpa using h⟩
    have hrunning : s.life p = .running := by simpa using (List.mem_filter.mp hp).2
    simp [hrunning]
  · exact ⟨hs.failed, rfl, hnodup, hpresent, nofun⟩

theorem inv_step {a : Action ι} (hs : Inv s) (ha : NotInspecting s a) (ht : s.step a = some t) :
    Inv t := by
  cases a with
  | birth p | publishCreated p | exit p =>
    obtain ⟨-, rfl⟩ := of_guard ht
    exact hs.frame_update _ nofun
  | wait e =>
    obtain ⟨-, rfl⟩ := of_guard ht
    exact hs.frame_update _ fun h => absurd h ha
  | observeReaped e | handoffWaitAuthority e =>
    obtain ⟨-, rfl⟩ := of_guard ht
    exact hs.frame _ _ hs.present
  | startPass children =>
    obtain ⟨⟨-, hnodup, hpresent⟩, rfl⟩ := of_guard ht
    exact hs.startPass hnodup hpresent
  | inspect =>
    simp only [State.step] at ht
    split at ht
    · next hpass hrest =>
      obtain rfl := Option.some.inj ht
      exact hs.inspect hpass hrest
    · cases ht
  | endPass =>
    obtain ⟨⟨-, hrest⟩, rfl⟩ := of_guard ht
    exact { hs with idle := fun _ => hrest }

/-- No pass records an error, and a pass that is over has inspected all it enumerated. -/
theorem external_waits_tolerated (h : (machine ι).ReachableUnder NotInspecting s) :
    s.failed = none ∧ (s.passing = false → s.inspected = s.enumerated) := by
  have hs : Inv s := by
    refine h.invariant ?_ fun s a t _ hs ha ht => inv_step hs ha ht
    rintro _ rfl
    exact ⟨rfl, rfl, .nil, nofun, fun _ => rfl⟩
  refine ⟨hs.failed, fun hpass => ?_⟩
  rw [hs.split, hs.idle hpass, List.append_nil]

/-- An external child whose creator has waited before the pass, and an adopted one. -/
theorem external_waits_tolerated_pass : ∃ s, (machine Bool).ReachableUnder NotInspecting s ∧
    s.enumerated = [true] ∧ s.failed = none ∧ s.inspected = s.enumerated := by
  obtain ⟨s, hs, hpass, henum⟩ := exists_reachableUnder_of_exec
    (M := machine Bool) (P := NotInspecting)
    (Q := fun s => s.passing = false ∧ s.enumerated = [true])
    [.publishCreated false, .birth true, .exit false, .wait { processId := false }, .startPass [true],
      .inspect, .endPass] rfl (by decide +kernel)
  obtain ⟨hfailed, hall⟩ := external_waits_tolerated hs
  exact ⟨s, hs, henum, hfailed, hall hpass⟩

/-- The creator waits between the enumeration and the inspection of its child: the wait by process id
fails, and the adopted child behind it is not inspected. -/
theorem external_wait_fails_pass : ∃ s, (machine Bool).Reachable s ∧ s.passing = false ∧
    s.failed = some "waitid(individually owned family child)" ∧ s.enumerated = [false, true] ∧
    true ∉ s.inspected :=
  exists_reachable_of_exec (M := machine Bool)
    [.publishCreated false, .birth true, .exit false, .startPass [false, true],
      .wait { processId := false }, .inspect] rfl (by decide +kernel)

end Sintra.Process.FamilyReaper
