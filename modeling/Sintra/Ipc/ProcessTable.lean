import Mathlib

/-!
# Process instances and the operating system's process table

The shared locks record their owner as a *process instance*: the PID in the upper 32 bits of a
64-bit word and a token drawn by the process image in the lower 32 (`process_utils.h`). PIDs are
recycled, instances are not.
-/

namespace Sintra.Ipc

/-! ### Incarnations -/

/-- One process image. `token` is what `draw_process_instance_token` drew for it.
Source: `process_utils.h`, `current_process_instance`, `current_process_start_stamp` -/
structure Incarnation where
  /-- The process id, a nonzero `uint32_t`. -/
  pid : ℕ
  /-- The start stamp; zero when no stamp can be read. -/
  stamp : ℕ
  /-- The lower half of the process instance, a `uint32_t`. -/
  token : ℕ
  pid_pos : 0 < pid
  pid_lt : pid < 2 ^ 32
  token_lt : token < 2 ^ 32
  deriving DecidableEq

/-- The process instance word of an incarnation.
Source: `process_utils.h`, `current_process_instance` -/
def Incarnation.processInstance (p : Incarnation) : ℕ := (p.pid <<< 32) ||| p.token

/-- The PID recorded in a process instance word.
Source: `process_utils.h`, `process_instance_pid` -/
def processInstancePid (w : ℕ) : ℕ := w >>> 32

theorem Incarnation.processInstance_eq (p : Incarnation) :
    p.processInstance = p.pid * 2 ^ 32 + p.token := by
  unfold Incarnation.processInstance
  rw [← Nat.shiftLeft_add_eq_or_of_lt p.token_lt, Nat.shiftLeft_eq]

@[simp] theorem processInstancePid_processInstance (p : Incarnation) :
    processInstancePid p.processInstance = p.pid := by
  have := p.token_lt
  rw [processInstancePid, p.processInstance_eq, Nat.shiftRight_eq_div_pow]
  omega

theorem Incarnation.processInstance_ne_zero (p : Incarnation) : p.processInstance ≠ 0 := by
  have := p.pid_pos
  rw [p.processInstance_eq]
  omega

/-! ### The process table -/

/-- The processes that ever ran and those that are running.
Source: `process_utils.h`, the comment at `process_instance_pid` -/
structure ProcessTable where
  /-- The running processes. -/
  live : Finset Incarnation
  /-- Every process that was ever started. -/
  born : Finset Incarnation
  live_born : live ⊆ born
  /-- Two live processes never share a PID. -/
  pid_unique : ∀ p ∈ live, ∀ q ∈ live, p.pid = q.pid → p = q
  /-- Process instances are unique. -/
  instance_unique : ∀ p ∈ born, ∀ q ∈ born, p.processInstance = q.processInstance → p = q
  /-- A PID with its start stamp is unique. -/
  stamp_unique : ∀ p ∈ born, ∀ q ∈ born, p.pid = q.pid → p.stamp = q.stamp → p = q

namespace ProcessTable

/-- No process has run yet. -/
def empty : ProcessTable where
  live := ∅
  born := ∅
  live_born := Finset.Subset.refl _
  pid_unique := by simp
  instance_unique := by simp
  stamp_unique := by simp

/-- What the operating system grants a new process: a PID no live process holds, and an identity
no earlier process had. -/
def Startable (t : ProcessTable) (p : Incarnation) : Prop :=
  (∀ q ∈ t.live, q.pid ≠ p.pid) ∧
    ∀ q ∈ t.born, q.processInstance ≠ p.processInstance ∧ (q.pid ≠ p.pid ∨ q.stamp ≠ p.stamp)

instance (t : ProcessTable) (p : Incarnation) : Decidable (t.Startable p) := by
  unfold Startable
  infer_instance

/-- A process starts. -/
def start (t : ProcessTable) (p : Incarnation) (h : t.Startable p) : ProcessTable where
  live := insert p t.live
  born := insert p t.born
  live_born := Finset.insert_subset_insert p t.live_born
  pid_unique := by
    intro a ha b hb hab
    rcases Finset.mem_insert.mp ha with rfl | ha' <;> rcases Finset.mem_insert.mp hb with rfl | hb'
    · rfl
    · exact absurd hab.symm (h.1 b hb')
    · exact absurd hab (h.1 a ha')
    · exact t.pid_unique a ha' b hb' hab
  instance_unique := by
    intro a ha b hb hab
    rcases Finset.mem_insert.mp ha with rfl | ha' <;> rcases Finset.mem_insert.mp hb with rfl | hb'
    · rfl
    · exact absurd hab.symm (h.2 b hb').1
    · exact absurd hab (h.2 a ha').1
    · exact t.instance_unique a ha' b hb' hab
  stamp_unique := by
    intro a ha b hb hab hst
    rcases Finset.mem_insert.mp ha with rfl | ha' <;> rcases Finset.mem_insert.mp hb with rfl | hb'
    · rfl
    · rcases (h.2 b hb').2 with hne | hne
      · exact absurd hab.symm hne
      · exact absurd hst.symm hne
    · rcases (h.2 a ha').2 with hne | hne
      · exact absurd hab hne
      · exact absurd hst hne
    · exact t.stamp_unique a ha' b hb' hab hst

/-- A process dies: by exit, abort or crash. -/
def exit (t : ProcessTable) (p : Incarnation) : ProcessTable where
  live := t.live.erase p
  born := t.born
  live_born := (Finset.erase_subset p t.live).trans t.live_born
  pid_unique := fun a ha b hb =>
    t.pid_unique a (Finset.mem_of_mem_erase ha) b (Finset.mem_of_mem_erase hb)
  instance_unique := t.instance_unique
  stamp_unique := t.stamp_unique

variable {t : ProcessTable} {p q : Incarnation}

@[simp] theorem mem_live_start (h : t.Startable p) : q ∈ (t.start p h).live ↔ q = p ∨ q ∈ t.live :=
  Finset.mem_insert

@[simp] theorem mem_born_start (h : t.Startable p) : q ∈ (t.start p h).born ↔ q = p ∨ q ∈ t.born :=
  Finset.mem_insert

@[simp] theorem mem_live_exit : q ∈ (t.exit p).live ↔ q ≠ p ∧ q ∈ t.live := Finset.mem_erase

theorem Startable.not_mem_born (h : t.Startable p) : p ∉ t.born :=
  fun hp => (h.2 p hp).1 rfl

/-- `o` is the instance of a started process that has exited. -/
def Exited (t : ProcessTable) (o : ℕ) : Prop :=
  ∃ p ∈ t.born, p ∉ t.live ∧ o = p.processInstance

variable {o : ℕ}

theorem Exited.ne_zero (h : t.Exited o) : o ≠ 0 := by
  obtain ⟨p, -, -, rfl⟩ := h
  exact p.processInstance_ne_zero

/-- A live process is not the exited owner of a word. -/
theorem Exited.ne_of_live (h : t.Exited o) (hp : p ∈ t.live) : o ≠ p.processInstance := by
  rintro rfl
  obtain ⟨q, hq, hql, heq⟩ := h
  have := t.instance_unique p (t.live_born hp) q hq heq
  exact hql (this ▸ hp)

theorem Exited.start (h : t.Exited o) (hp : t.Startable p) : (t.start p hp).Exited o := by
  obtain ⟨q, hq, hql, rfl⟩ := h
  refine ⟨q, (mem_born_start hp).mpr (.inr hq), fun hlive => ?_, rfl⟩
  rcases (mem_live_start hp).mp hlive with rfl | hlive
  · exact hp.not_mem_born hq
  · exact hql hlive

theorem Exited.exit (h : t.Exited o) (p : Incarnation) : (t.exit p).Exited o := by
  obtain ⟨q, hq, hql, rfl⟩ := h
  exact ⟨q, hq, fun hlive => hql (mem_live_exit.mp hlive).2, rfl⟩

/-- The answer `is_process_alive(pid)` may give: it never reports a live process as dead.
Source: `process_utils.h`, `is_process_alive` -/
def MayAnswerAlive (t : ProcessTable) (pid : ℕ) (alive : Bool) : Prop :=
  alive = false → ∀ q ∈ t.live, q.pid ≠ pid

instance (t : ProcessTable) (pid : ℕ) (alive : Bool) : Decidable (t.MayAnswerAlive pid alive) := by
  unfold MayAnswerAlive
  infer_instance

end ProcessTable

/-! ### The exit test of the shared locks -/

/-- Whether the process instance that recorded a shared lock's owner has exited, given the answer
of `is_process_alive` for its PID.
Source: `process_utils.h`, `process_instance_has_exited` -/
def processInstanceHasExited (recorded self : ℕ) (alive : Bool) : Bool :=
  if processInstancePid recorded = processInstancePid self then
    recorded != self
  else
    !alive

/-- **The exit test is sound**: asked by a live process about a started one, it answers yes only
if that one is no longer live. -/
theorem not_live_of_processInstanceHasExited {t : ProcessTable} {p self : Incarnation}
    {alive : Bool} (hself : self ∈ t.live) (halive : t.MayAnswerAlive p.pid alive)
    (h : processInstanceHasExited p.processInstance self.processInstance alive = true) :
    p ∉ t.live := by
  intro hp
  unfold processInstanceHasExited at h
  rw [processInstancePid_processInstance, processInstancePid_processInstance] at h
  split_ifs at h with hpid
  · have := t.pid_unique p hp self hself hpid
    subst this
    simp at h
  · cases alive
    · exact halive rfl p hp rfl
    · simp at h

/-- The same about a word that holds the instance of a started process. -/
theorem exited_of_processInstanceHasExited {t : ProcessTable} {self : Incarnation} {o : ℕ}
    {alive : Bool} (hself : self ∈ t.live) (ho : ∃ p ∈ t.born, o = p.processInstance)
    (halive : t.MayAnswerAlive (processInstancePid o) alive)
    (h : processInstanceHasExited o self.processInstance alive = true) : t.Exited o := by
  obtain ⟨p, hp, rfl⟩ := ho
  rw [processInstancePid_processInstance] at halive
  exact ⟨p, hp, not_live_of_processInstanceHasExited hself halive h, rfl⟩

end Sintra.Ipc
