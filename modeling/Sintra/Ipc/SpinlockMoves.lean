import Sintra.Ipc.Spinlock

/-!
# What a step of the spinlock can do

`State.next` is a case split over the control point. `Move s t s'` says once, per atomic operation,
what it needs and what it changes; `move_of_next` reads every step as a move, so the proofs below
never unfold `State.next` again. Moves that touch only the control point are collected under
`LocalMove`.
-/

namespace Sintra.Ipc.Spinlock

/-- A step of `t` that changes no shared word: `LocalMove s t pc'` moves it to `pc'`. -/
inductive LocalMove (s : State) (t : Thread) : Pc → Prop
  | sawUnowned {w} : s.pc t = .contend w → LocalMove s t (.acquireCas w)
  | keepWaiting {w} : s.pc t = .contend w ∨ s.pc t = .acquireCas w → LocalMove s t (.contend w)
  | poll {w} : s.pc t = .contend w ∨ s.pc t = .acquireCas w → LocalMove s t (.takeoverOwner w)
  | notTaken {w} : s.pc t = .takeoverOwner w ∨ (∃ o, s.pc t = .takeoverProbe o w) ∨
      (∃ o, s.pc t = .takeoverCas o w) → LocalMove s t (notTaken w)
  | loadedOwner {w} : s.pc t = .takeoverOwner w → s.owner ≠ 0 →
      LocalMove s t (.takeoverProbe s.owner w)
  | foundExited {o w b} : s.pc t = .takeoverProbe o w →
      s.procs.MayAnswerAlive (processInstancePid o) b →
      processInstanceHasExited o t.1.processInstance b = true → LocalMove s t (.takeoverBump o w)
  | startGeneration : s.pc t = .startGeneration → LocalMove s t (.startOwner s.generation s.marks)
  | openWindow {g m} : s.pc t = .startOwner g m → g % 2 = 1 → s.owner ≠ 0 →
      LocalMove s t (.contend (some ⟨g, s.owner, m, s.acquisitions⟩))
  | noWindow : (∃ g m, s.pc t = .startOwner g m) ∨ (∃ w o, s.pc t = .endGeneration w o) ∨
      (∃ w, s.pc t = .finalOwner w) ∨ (∃ w o h, s.pc t = .finalGeneration w o h) →
      LocalMove s t (.contend none)
  | endOwner {w} : s.pc t = .endOwner w → LocalMove s t (.endGeneration w s.owner)
  | keepWindow {w o} : s.pc t = .endGeneration w o → LocalMove s t (.contend (some w))
  | timeout {w o} : s.pc t = .endGeneration w o → LocalMove s t (.finalOwner w)
  | finalOwner {w} : s.pc t = .finalOwner w →
      LocalMove s t (.finalGeneration w s.owner s.acquisitions)
  | verdict {w o h} : s.pc t = .finalGeneration w o h → o = w.owner →
      s.generation = w.generation → w.owner = t.1.processInstance → LocalMove s t (.stalled w h)

/-- One atomic operation of `t`. -/
inductive Move (s : State) (t : Thread) : State → Prop
  | local {pc'} : LocalMove s t pc' → Move s t (s.goto t pc')
  | acquire {w} : s.pc t = .acquireCas w → s.owner = 0 →
      Move s t ({ s with owner := t.1.processInstance, locks := s.locks + 1 }.goto t .oddMark)
  | oddMark : s.pc t = .oddMark → Move s t ((s.addGeneration 1).goto t .holding)
  | zeroStore : s.pc t = .zeroStore → Move s t ((s.endHold 0).goto t .idle)
  | bump {o w} : s.pc t = .takeoverBump o w →
      Move s t ({ s.addGeneration 2 with bumps := s.bumps + 1 }.goto t (.takeoverCas o w))
  | takeover {o w} : s.pc t = .takeoverCas o w → s.owner = o →
      Move s t ({ s.endHold t.1.processInstance with takeovers := s.takeovers + 1 }.goto t
        .takeoverLoad)
  | reload : s.pc t = .takeoverLoad ∨ (∃ a, s.pc t = .takeoverMark a) →
      Move s t (s.goto t (.takeoverMark s.generation))
  | takeoverMark {actual} : s.pc t = .takeoverMark actual → s.generation = actual →
      Move s t ((s.addGeneration (if actual % 2 = 1 then 2 else 1)).goto t .holding)

/-- A step taken by a thread inside `lock` or `unlock` is one of the moves. -/
theorem move_of_next {s s' : State} {t : Thread} {b c : Bool} (h : s.next t b c = some s') :
    Move s t s' := by
  unfold State.next at h
  cases hpc : s.pc t
  all_goals simp only [hpc] at h
  case idle | holding | stalled => cases h
  case contend w =>
    split_ifs at h with h0 hb <;> cases h
    · exact .local (.sawUnowned hpc)
    · exact .local (.poll (.inl hpc))
    · exact .local (.keepWaiting (.inl hpc))
  case acquireCas w =>
    split_ifs at h with h0 hb <;> cases h
    · exact .acquire hpc h0
    · exact .local (.poll (.inr hpc))
    · exact .local (.keepWaiting (.inr hpc))
  case oddMark => cases h; exact .oddMark hpc
  case zeroStore => cases h; exact .zeroStore hpc
  case takeoverOwner w =>
    split_ifs at h with h0 <;> cases h
    · exact .local (.notTaken (.inl hpc))
    · exact .local (.loadedOwner hpc h0)
  case takeoverProbe o w =>
    split_ifs at h with h0 he <;> cases h
    · exact .local (.foundExited hpc h0 he)
    · exact .local (.notTaken (.inr (.inl ⟨o, hpc⟩)))
  case takeoverBump o w => cases h; exact .bump hpc
  case takeoverCas o w =>
    split_ifs at h with h0 <;> cases h
    · exact .takeover hpc h0
    · exact .local (.notTaken (.inr (.inr ⟨o, hpc⟩)))
  case takeoverLoad => cases h; exact .reload (.inl hpc)
  case takeoverMark actual =>
    split_ifs at h with h0 h1 <;> cases h
    · simpa [h1] using Move.takeoverMark hpc h0.1
    · simpa [h1] using Move.takeoverMark hpc h0.1
    · exact .reload (.inr ⟨actual, hpc⟩)
  case startGeneration => cases h; exact .local (.startGeneration hpc)
  case startOwner g m =>
    split_ifs at h with h0 <;> cases h
    · exact .local (.openWindow hpc h0.1 h0.2.1)
    · exact .local (.noWindow (.inl ⟨g, m, hpc⟩))
  case endOwner w => cases h; exact .local (.endOwner hpc)
  case endGeneration w o =>
    split_ifs at h with h0 hc <;> cases h
    · exact .local (.timeout hpc)
    · exact .local (.keepWindow hpc)
    · exact .local (.noWindow (.inr (.inl ⟨w, o, hpc⟩)))
  case finalOwner w =>
    split_ifs at h with h0 <;> cases h
    · exact .local (.noWindow (.inr (.inr (.inl ⟨w, hpc⟩))))
    · exact .local (.finalOwner hpc)
  case finalGeneration w o h' =>
    split_ifs at h with h0 <;> cases h
    · exact .local (.verdict hpc h0.1 h0.2.1 h0.2.2)
    · exact .local (.noWindow (.inr (.inr (.inr ⟨w, o, h', hpc⟩))))

/-- A local move neither starts in the locked section nor ends in it. -/
theorem LocalMove.inSection_eq_false {s : State} {t : Thread} {pc' : Pc} (h : LocalMove s t pc') :
    (s.pc t).inSection = false ∧ pc'.inSection = false := by
  cases h with
  | sawUnowned h | loadedOwner h _ | foundExited h _ _ | startGeneration h | openWindow h _ _
  | endOwner h | keepWindow h | timeout h | finalOwner h | verdict h _ _ _ =>
    rw [h]; exact ⟨rfl, rfl⟩
  | keepWaiting h | poll h => rcases h with h | h <;> rw [h] <;> exact ⟨rfl, rfl⟩
  | @notTaken w h =>
    refine ⟨?_, by cases w <;> rfl⟩
    rcases h with h | ⟨o, h⟩ | ⟨o, h⟩ <;> rw [h] <;> rfl
  | noWindow h =>
    rcases h with ⟨_, _, h⟩ | ⟨_, _, h⟩ | ⟨_, h⟩ | ⟨_, _, _, h⟩ <;> rw [h] <;> exact ⟨rfl, rfl⟩

end Sintra.Ipc.Spinlock
