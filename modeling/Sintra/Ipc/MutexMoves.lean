import Sintra.Ipc.Mutex

/-!
# What a step of the mutex can do

`Move s t s'` lists the kinds of atomic operations of a thread: silent ones outside the gate
(`Outside`) and under it (`Inside`), those on the gate, and those on the owner's words.
`move_of_next` reads every step of `State.next` as a move.
-/

namespace Sintra.Ipc.Mutex

/-! ### Kinds of moves -/

/-- Control points outside the gate that remember nothing. -/
def Pc.plain : Pc → Bool
  | .idle | .gateLoad _ | .gateCas _ | .loadExpected => true
  | _ => false

theorem Pc.inGate_of_plain {pc : Pc} (h : pc.plain = true) : pc.inGate = false := by
  cases pc <;> first | rfl | cases h

@[simp] theorem failed_plain (c : Call) (again : Bool) : (failed c again).plain = true := by
  unfold failed
  split_ifs <;> rfl

@[simp] theorem afterAttempts_plain (self : ℕ) (c : Call) (again : Bool) (e : ℕ) :
    (afterAttempts self c again e).plain = true := by
  unfold afterAttempts
  split_ifs
  · rfl
  · exact failed_plain c again

theorem gateRefused_plain (self : ℕ) (c : Call) (again : Bool) (u : GateUse) :
    (gateRefused self c again u).plain = true := by
  cases u with
  | attempt a =>
    cases a with
    | first => rfl
    | second e => exact afterAttempts_plain _ _ _ _
  | recover e => exact afterAttempts_plain _ _ _ _
  | recursion => exact failed_plain _ _

/-- After the release of the gate a thread remembers something only on its way to the recursion
error. -/
theorem afterRelease_cases (self : ℕ) (c : Call) (again : Bool) (after : After) :
    (afterRelease self c again after).plain = true ∨
      ∃ own, after = .recursive true own ∧ afterRelease self c again after = .raised own := by
  cases after with
  | acquired => exact .inl rfl
  | notAcquired a =>
    cases a with
    | first => exact .inl rfl
    | second e => exact .inl (afterAttempts_plain _ _ _ _)
  | recovered e r =>
    cases r with
    | true => exact .inl rfl
    | false => exact .inl (afterAttempts_plain _ _ _ _)
  | recursive r own =>
    simp only [afterRelease]
    split_ifs with h
    · obtain ⟨hr, -⟩ := h
      exact .inr ⟨own, by rw [hr], rfl⟩
    · exact .inl (failed_plain _ _)

/-- A step outside the gate that changes no word. -/
inductive Outside (s : State) (t : Thread) : Pc → Prop
  | plain {pc'} : (s.pc t).inGate = false → pc'.plain = true → Outside s t pc'
  | gateBusy {u} : s.pc t = .gateLoad u → s.recovering ≠ 0 →
      Outside s t (.gateProbe u s.recovering)
  | gateExited {u h b} : s.pc t = .gateProbe u h →
      s.procs.MayAnswerAlive (processInstancePid h) b →
      processInstanceHasExited h t.proc.processInstance b = true → Outside s t (.gateClear u h)

/-- A step under the gate that changes no word. -/
inductive Inside (s : State) (t : Thread) : Pc → Prop
  | done {after} : (s.pc t).inGate = true → (∀ r own, after = .recursive r own → r = false) →
      Inside s t (.release after)
  | unowned {a} : s.pc t = .checkUnowned a → s.owner = 0 → Inside s t (.storeStamp a)
  | sawOwner {e} : s.pc t = .recoverOwner e → s.owner = e →
      Inside s t (.recoverStamp e s.acquisitions)
  | samePid {e hold} : s.pc t = .recoverStamp e hold → ownerPid e = t.proc.pid →
      Inside s t (.recoverInstance e hold)
  | otherPid {e hold} : s.pc t = .recoverStamp e hold →
      Inside s t (.recoverAlive e s.ownerStartStamp hold)
  | otherInstance {e hold} : s.pc t = .recoverInstance e hold →
      s.ownerInstance ≠ t.proc.processInstance → Inside s t (.recoverCas e hold)
  | notAlive {e stamp hold} : s.pc t = .recoverAlive e stamp hold →
      s.procs.MayAnswerAlive (ownerPid e) false → Inside s t (.recoverCas e hold)
  | query {e stamp hold} : s.pc t = .recoverAlive e stamp hold →
      Inside s t (.recoverQuery e stamp hold)
  | stale {e stamp hold current} : s.pc t = .recoverQuery e stamp hold →
      MayAnswerStamp s.procs (ownerPid e) current →
      ownerGenerationIsStale stamp current = true → Inside s t (.recoverCas e hold)
  | sawSelf : s.pc t = .recursionOwner → s.owner = t.ownerToken →
      Inside s t (.recursionInstance (s.holder.map Prod.fst == some t))
  | compared {own} : s.pc t = .recursionInstance own →
      Inside s t (.release (.recursive (s.ownerInstance == t.proc.processInstance) own))

/-- One atomic operation of `t`. -/
inductive Move (s : State) (t : Thread) : State → Prop
  | outside {pc'} : Outside s t pc' → Move s t (s.goto t pc')
  | inside {pc'} : Inside s t pc' → Move s t (s.goto t pc')
  | clearGate {u} : s.pc t = .gateClear u s.recovering →
      Move s t ({ s with recovering := 0 }.goto t (.gateCas u))
  | enterGate {u} : s.pc t = .gateCas u → s.recovering = 0 →
      Move s t ({ s with recovering := t.proc.processInstance }.goto t u.entry)
  | leaveGate {after pc'} : s.pc t = .release after →
      (pc'.plain = true ∨ ∃ own, after = .recursive true own ∧ pc' = .raised own) →
      Move s t ({ s with
        recovering := if s.recovering = t.proc.processInstance then 0 else s.recovering }.goto t
          pc')
  | storeStamp {a stamp} : s.pc t = .storeStamp a → (stamp = 0 ∨ stamp = t.proc.stamp) →
      Move s t ({ s with ownerStartStamp := stamp }.goto t (.storeInstance a stamp))
  | storeInstance {a stamp} : s.pc t = .storeInstance a stamp →
      Move s t ({ s with ownerInstance := t.proc.processInstance }.goto t (.ownerCas a stamp))
  | acquire {a stamp} : s.pc t = .ownerCas a stamp → s.owner = 0 →
      Move s t ((s.acquire t stamp).goto t (.release .acquired))
  | recover {e hold} : s.pc t = .recoverCas e hold → s.owner = e →
      Move s t ({ s with owner := 0, holder := none }.goto t (.release (.recovered e true)))

/-- A step of a thread inside one of the acquiring calls is one of the moves. -/
theorem move_of_next {s s' : State} {t : Thread} {b : Bool} {current : Option ℕ}
    (h : s.next t b current = some s') : Move s t s' := by
  have hplain : ∀ {pc pc'}, s.pc t = pc → pc.inGate = false → pc'.plain = true →
      Move s t (s.goto t pc') := fun hpc hout hp => .outside (.plain (hpc ▸ hout) hp)
  have hdone : ∀ {pc after}, s.pc t = pc → pc.inGate = true →
      (∀ r own, after = .recursive r own → r = false) → Move s t (s.goto t (.release after)) :=
    fun hpc hin hr => .inside (.done (hpc ▸ hin) hr)
  unfold State.next at h
  cases hpc : s.pc t
  all_goals simp only [hpc] at h
  case idle => cases h
  case gateLoad u =>
    split_ifs at h with h0 <;> cases h
    · exact .outside (.gateBusy hpc h0)
    · exact hplain hpc rfl rfl
  case gateProbe u holder =>
    split_ifs at h with ha he <;> cases h
    · exact .outside (.gateExited hpc ha he)
    · exact hplain hpc rfl rfl
  case gateClear u holder =>
    split_ifs at h with h0 <;> cases h
    · exact .clearGate (h0 ▸ hpc)
    · exact hplain hpc rfl rfl
  case gateCas u =>
    split_ifs at h with h0 <;> cases h
    · exact .enterGate hpc h0
    · exact hplain hpc rfl (gateRefused_plain _ _ _ _)
  case checkUnowned a =>
    split_ifs at h with h0 <;> cases h
    · exact hdone hpc rfl nofun
    · exact .inside (.unowned hpc (not_not.mp h0))
  case storeStamp a =>
    cases h
    refine .storeStamp hpc ?_
    cases b
    · exact .inl rfl
    · exact .inr rfl
  case storeInstance a stamp => cases h; exact .storeInstance hpc
  case ownerCas a stamp =>
    split_ifs at h with h0 <;> cases h
    · exact .acquire hpc h0
    · exact hdone hpc rfl nofun
  case loadExpected =>
    split_ifs at h with h0 <;> cases h
    · exact hplain hpc rfl rfl
    · exact hplain hpc rfl (afterAttempts_plain _ _ _ _)
  case recoverOwner e =>
    split_ifs at h with h0 h1 <;> cases h
    · exact hdone hpc rfl nofun
    · exact .inside (.sawOwner hpc h1)
    · exact hdone hpc rfl nofun
  case recoverStamp e hold =>
    simp only [processInstancePid_processInstance] at h
    split_ifs at h with h0 <;> cases h
    · exact .inside (.samePid hpc h0)
    · exact .inside (.otherPid hpc)
  case recoverInstance e hold =>
    split_ifs at h with h0 <;> cases h
    · exact .inside (.otherInstance hpc h0)
    · exact hdone hpc rfl nofun
  case recoverAlive e stamp hold =>
    split_ifs at h with ha hb <;> cases h
    · exact .inside (.query hpc)
    · rw [Bool.not_eq_true] at hb
      exact .inside (.notAlive hpc (hb ▸ ha))
  case recoverQuery e stamp hold =>
    split_ifs at h with ha hb <;> cases h
    · exact .inside (.stale hpc ha hb)
    · exact hdone hpc rfl nofun
  case recoverCas e hold =>
    split_ifs at h with h0 <;> cases h
    · exact .recover hpc h0
    · exact hdone hpc rfl nofun
  case recursionOwner =>
    split_ifs at h with h0 <;> cases h
    · exact .inside (.sawSelf hpc h0)
    · exact hdone hpc rfl (fun _ _ h => by cases h; rfl)
  case recursionInstance own => cases h; exact .inside (.compared hpc)
  case release after =>
    cases h
    exact .leaveGate hpc (afterRelease_cases _ _ _ _)
  case raised own => cases h; exact hplain hpc rfl rfl

/-- A silent step outside the gate stays outside. -/
theorem Outside.inGate_eq_false {s : State} {t : Thread} {pc' : Pc} (h : Outside s t pc') :
    (s.pc t).inGate = false ∧ pc'.inGate = false := by
  cases h with
  | plain hout hp => exact ⟨hout, Pc.inGate_of_plain hp⟩
  | gateBusy h _ | gateExited h _ _ => rw [h]; exact ⟨rfl, rfl⟩

/-- A silent step under the gate stays under it. -/
theorem Inside.inGate_eq_true {s : State} {t : Thread} {pc' : Pc} (h : Inside s t pc') :
    (s.pc t).inGate = true ∧ pc'.inGate = true := by
  cases h with
  | done hin _ => exact ⟨hin, rfl⟩
  | unowned h _ | sawOwner h _ | samePid h _ | otherPid h | otherInstance h _ | notAlive h _
  | query h | stale h _ _ | sawSelf h _ | compared h => rw [h]; exact ⟨rfl, rfl⟩

end Sintra.Ipc.Mutex
