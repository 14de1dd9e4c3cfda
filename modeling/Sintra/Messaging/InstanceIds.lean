import Mathlib

/-!
# Instance ids

An instance id is a 64-bit number: the process index in its upper 8 bits and the transceiver index in
its lower 56. Process index 1 stands for the local process, and the indices above `maxProcessIndex` are
complements: 254 for all processes but the local one, 255 for all.
-/

namespace Sintra.Messaging

/-- Source: `id_types.h`, `instance_id_type`, `decompose_instance` -/
structure InstanceId where
  process : ℕ
  transceiver : ℕ
  deriving DecidableEq

/-- Source: `config.h`, `num_process_index_bits`; `id_types.h`, `num_transceiver_index_bits` -/
def numProcessIndexBits : ℕ := 8

def numTransceiverIndexBits : ℕ := 64 - numProcessIndexBits

def maxProcessIndex : ℕ := 2 ^ (numProcessIndexBits - 1) - 1

def maxInstanceIndex : ℕ := 2 ^ (numTransceiverIndexBits - 1) - 1

def numReservedServiceInstances : ℕ := 0x1000

def allRemoteProcessesWildcard : ℕ := maxProcessIndex * 2

def allProcessesWildcard : ℕ := allRemoteProcessesWildcard + 1

def allTransceiversWildcard : ℕ := maxInstanceIndex * 2 + 1

def anyLocalOrRemote : InstanceId := ⟨allProcessesWildcard, allTransceiversWildcard⟩

def anyRemote : InstanceId := ⟨allRemoteProcessesWildcard, allTransceiversWildcard⟩

def anyLocal : InstanceId := ⟨1, allTransceiversWildcard⟩

/-- Source: `id_types.h`, `compose_instance` -/
def InstanceId.toNat (iid : InstanceId) : ℕ :=
  iid.process * 2 ^ numTransceiverIndexBits + iid.transceiver

instance : LE InstanceId := ⟨fun a b => a.toNat ≤ b.toNat⟩

instance (a b : InstanceId) : Decidable (a ≤ b) := inferInstanceAs (Decidable (a.toNat ≤ b.toNat))

/-- Source: `id_types.h`, `is_service_instance` -/
def isServiceInstance (iid : InstanceId) : Bool :=
  2 ≤ iid.transceiver && iid.transceiver < 2 + numReservedServiceInstances

/-- Source: `id_types.h`, `is_local_instance`, in the process with index `me` -/
def isLocalInstance (me : ℕ) (iid : InstanceId) : Bool := iid.process = 1 || iid.process = me

/-- Source: `id_types.h`, `is_local`, in the process with index `me` -/
def isLocal (me : ℕ) (iid : InstanceId) : Bool :=
  let excludedProcessIndex := 2 ^ numProcessIndexBits - 1 - iid.process
  isLocalInstance me iid ||
    (iid.process > maxProcessIndex && excludedProcessIndex ≠ 1 && excludedProcessIndex ≠ me) ||
    iid.process = allProcessesWildcard

/-- Source: `id_types.h`, `process_of` -/
def processOf (iid : InstanceId) : InstanceId := ⟨iid.process, 1⟩

/-- The index is one that a process can have. -/
def ProcessIndex (i : ℕ) : Prop := 2 ≤ i ∧ i ≤ maxProcessIndex

instance (i : ℕ) : Decidable (ProcessIndex i) := inferInstanceAs (Decidable (_ ∧ _))

variable {me : ℕ} {iid : InstanceId}

theorem ProcessIndex.ne_one (h : ProcessIndex me) : me ≠ 1 := by
  have hme := h.1
  omega

theorem isLocalInstance_iff (h : ProcessIndex iid.process) :
    isLocalInstance me iid = true ↔ iid.process = me := by
  have hone := h.ne_one
  simp [isLocalInstance, hone]

/-- For the index of one process, `is_local` and `is_local_instance` mean the same. -/
theorem isLocal_eq (h : ProcessIndex iid.process) : isLocal me iid = isLocalInstance me iid := by
  have hle : ¬iid.process > maxProcessIndex := Nat.not_lt.2 h.2
  have hall : iid.process ≠ allProcessesWildcard := by
    simp only [maxProcessIndex, numProcessIndexBits, allProcessesWildcard,
      allRemoteProcessesWildcard] at hle ⊢
    omega
  simp [isLocal, hle, hall]

theorem anyLocal_not_processIndex : ¬ProcessIndex anyLocal.process := by
  rintro ⟨h, -⟩
  simp [anyLocal] at h

theorem isLocalInstance_anyLocal (me : ℕ) : isLocalInstance me anyLocal = true := by
  simp [isLocalInstance, anyLocal]

/-- A complement is no instance of this process. -/
theorem isLocalInstance_of_lt (h : ProcessIndex me) (hlt : maxProcessIndex < iid.process) :
    isLocalInstance me iid = false := by
  have hone : iid.process ≠ 1 := by
    have hmax : 1 ≤ maxProcessIndex := by decide
    omega
  have hme : iid.process ≠ me := by
    have hle := h.2
    omega
  simp [isLocalInstance, hone, hme]

theorem isLocalInstance_anyRemote (h : ProcessIndex me) : isLocalInstance me anyRemote = false :=
  isLocalInstance_of_lt h (by decide)

theorem isLocalInstance_anyLocalOrRemote (h : ProcessIndex me) :
    isLocalInstance me anyLocalOrRemote = false :=
  isLocalInstance_of_lt h (by decide)

theorem anyRemote_le_anyRemote : anyRemote ≤ anyRemote := Nat.le_refl _

theorem anyRemote_le_anyLocalOrRemote : anyRemote ≤ anyLocalOrRemote := by decide

end Sintra.Messaging
