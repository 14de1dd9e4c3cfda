import Sintra.Ipc.SpinlockMoves
import Sintra.Lib.Updates

/-!
# The spinlock's invariant

`Inv s` holds in every reachable state (`reachable_inv`). It has three parts.

* **The section** (`section_owner`, `section_unique`, `section_ok`): a live thread inside the locked
  section is named by the owner word, at most one thread is in a section that is still in force, and
  `SectionOk` fixes the parity of the generation, the distance to the ends of earlier holds and the
  budget of increments at each control point.
* **The words** (`generation_eq`, `unowned_even`, `ends_…`): the generation word is the unwrapped
  count of increments modulo `2^64`, even when unowned; the unwrapped ends of the holds so far are
  strictly decreasing (the latest stands first).
* **The waiters** (`local_ok`): what a live waiter remembers. These facts are stable under the steps
  of all other threads, which is stated once as the relation `Rely`.
-/

namespace Sintra.Ipc.Spinlock

open Function State Machine

/-! ### The invariant -/

/-- The increments of the generation that the acquisitions and bumps so far can account for. -/
def State.budget (s : State) : ℕ := 2 * s.locks + 2 * s.bumps + 3 * s.takeovers

/-- What holds at each control point of the section in force. -/
def SectionOk (s : State) : Pc → Prop
  | .oddMark => s.marks % 2 = 0 ∧ s.marks + 2 ≤ s.budget
  | .holding => s.marks % 2 = 1 ∧ (∀ m ∈ s.endMarks, m < s.marks) ∧ s.marks + 1 ≤ s.budget
  | .zeroStore => s.marks % 2 = 0 ∧ ∀ m ∈ s.endMarks, m < s.marks
  | .takeoverLoad | .takeoverMark _ => s.marks + 3 ≤ s.budget
  | _ => True

/-- What a waiter's open window records. While the generation has not moved since the window
opened, either the hold of the window is still in force, or its owner has exited and lost the
lock. -/
def WitnessOk (s : State) (w : Witness) : Prop :=
  w.generation = w.marks % 2 ^ 64 ∧ w.marks % 2 = 1 ∧ w.marks ≤ s.marks ∧
    (s.marks = w.marks →
      (s.owner = w.owner ∧ s.acquisitions = w.hold) ∨ (s.procs.Exited w.owner ∧ s.owner ≠ w.owner))

/-- The same for a window that may be closed. -/
def WindowOk (s : State) (w : Option Witness) : Prop := ∀ w' ∈ w, WitnessOk s w'

/-- What a live waiter remembers at each control point. -/
def LocalOk (s : State) : Pc → Prop
  | .contend w | .acquireCas w | .takeoverOwner w => WindowOk s w
  | .takeoverProbe o w => (∃ p ∈ s.procs.born, o = p.processInstance) ∧ WindowOk s w
  | .takeoverBump o w => s.procs.Exited o ∧ WindowOk s w
  | .takeoverCas o w =>
    s.procs.Exited o ∧ (s.owner = o → ∀ m ∈ s.endMarks, m < s.marks) ∧ WindowOk s w
  | .startOwner g m => g = m % 2 ^ 64 ∧ m ≤ s.marks
  | .endOwner w | .endGeneration w _ | .finalOwner w => WitnessOk s w
  | .finalGeneration w o h => WitnessOk s w ∧ (s.marks = w.marks → o = w.owner → h = w.hold)
  | .stalled w h => s.marks < 2 ^ 64 → h = w.hold
  | _ => True

/-- The invariant of the spinlock. -/
structure Inv (s : State) : Prop where
  generation_eq : s.generation = s.marks % 2 ^ 64
  owner_born : s.owner = 0 ∨ ∃ p ∈ s.procs.born, s.owner = p.processInstance
  unborn_idle : ∀ t, t.1 ∉ s.procs.born → s.pc t = .idle
  unowned_even : s.owner = 0 → s.marks % 2 = 0
  section_owner : ∀ t, t.1 ∈ s.procs.live → (s.pc t).inSection = true →
    s.owner = t.1.processInstance
  section_unique : ∀ t t', (s.pc t).inSection = true → (s.pc t').inSection = true →
    s.owner = t.1.processInstance → s.owner = t'.1.processInstance → t = t'
  section_ok : ∀ t, s.owner = t.1.processInstance → SectionOk s (s.pc t)
  marks_le : s.marks ≤ s.budget
  ends_eq : s.ends = s.endMarks.map (· % 2 ^ 64)
  ends_sorted : s.endMarks.Pairwise (· > ·)
  ends_le : ∀ m ∈ s.endMarks, m ≤ s.marks
  local_ok : ∀ t, t.1 ∈ s.procs.live → LocalOk s (s.pc t)

theorem Inv.initial : Inv initial where
  generation_eq := rfl
  owner_born := .inl rfl
  unborn_idle := fun _ _ => rfl
  unowned_even := fun _ => rfl
  section_owner := fun _ _ h => by cases h
  section_unique := fun _ _ h => by cases h
  section_ok := fun _ _ => trivial
  marks_le := le_rfl
  ends_eq := rfl
  ends_sorted := List.Pairwise.nil
  ends_le := fun m hm => absurd hm List.not_mem_nil
  local_ok := fun _ _ => trivial

/-- A thread in the section belongs to a started process. -/
theorem Inv.born_of_inSection {s : State} (hs : Inv s) {t : Thread} (h : (s.pc t).inSection = true) :
    t.1 ∈ s.procs.born := by
  by_contra hb
  rw [hs.unborn_idle t hb] at h
  cases h

/-! ### What every waiter can rely on -/

/-- What a step of any other thread, a start or an exit guarantees to a waiter. -/
structure Rely (s s' : State) : Prop where
  born : s.procs.born ⊆ s'.procs.born
  exited : ∀ o, s.procs.Exited o → s'.procs.Exited o
  marks_le : s.marks ≤ s'.marks
  /-- An exited owner that is still in the owner word had it before, and no hold has ended. -/
  exited_owner : ∀ o, s.procs.Exited o → s'.owner = o → s.owner = o ∧ s'.endMarks = s.endMarks
  /-- While the generation stays at an odd value, the hold in force stays or is taken from an
  exited owner. -/
  odd_window : s'.marks = s.marks → s.marks % 2 = 1 →
    (s'.owner = s.owner ∧ s'.acquisitions = s.acquisitions) ∨
      (s.procs.Exited s.owner ∧ s'.owner ≠ s.owner)

variable {s s' : State}

/-- The steps that change neither the words nor the ghosts. -/
theorem Rely.of_same_words (hborn : s.procs.born ⊆ s'.procs.born)
    (hexited : ∀ o, s.procs.Exited o → s'.procs.Exited o) (hm : s'.marks = s.marks)
    (ho : s'.owner = s.owner) (ha : s'.acquisitions = s.acquisitions)
    (he : s'.endMarks = s.endMarks) : Rely s s' where
  born := hborn
  exited := hexited
  marks_le := hm.ge
  exited_owner := fun _ _ h => ⟨ho ▸ h, he⟩
  odd_window := fun _ _ => .inl ⟨ho, ha⟩

/-- The steps that change the owner, during an even generation or after the exit of the old one. -/
theorem Rely.of_owner (hp : s'.procs = s.procs) (hm : s'.marks = s.marks)
    (hnew : ∀ o, s.procs.Exited o → s'.owner ≠ o)
    (hodd : s.marks % 2 = 1 → s.procs.Exited s.owner ∧ s'.owner ≠ s.owner) : Rely s s' where
  born := by rw [hp]
  exited := fun o h => by rwa [hp]
  marks_le := hm.ge
  exited_owner := fun _ hex h => absurd h (hnew _ hex)
  odd_window := fun _ h => .inr (hodd h)

/-- The steps that move the generation and leave the owner. -/
theorem Rely.of_marks (hp : s'.procs = s.procs) (hm : s.marks < s'.marks) (ho : s'.owner = s.owner)
    (he : s'.endMarks = s.endMarks) : Rely s s' where
  born := by rw [hp]
  exited := fun o h => by rwa [hp]
  marks_le := hm.le
  exited_owner := fun o _ h => ⟨ho ▸ h, he⟩
  odd_window := fun h _ => absurd h hm.ne'

theorem WitnessOk.rely (hr : Rely s s') {w : Witness} (h : WitnessOk s w) : WitnessOk s' w := by
  obtain ⟨hg, hodd, hle, hwin⟩ := h
  refine ⟨hg, hodd, hle.trans hr.marks_le, fun hm => ?_⟩
  have hm0 : s.marks = w.marks := le_antisymm (hm ▸ hr.marks_le) hle
  rcases hwin hm0 with ⟨ho, ha⟩ | ⟨hex, hne⟩
  · rcases hr.odd_window (by rw [hm, hm0]) (by rw [hm0]; exact hodd) with ⟨ho', ha'⟩ | ⟨hex, hne⟩
    · exact .inl ⟨ho'.trans ho, ha'.trans ha⟩
    · exact .inr ⟨ho ▸ hr.exited _ hex, ho ▸ hne⟩
  · exact .inr ⟨hr.exited _ hex, fun h => hne (hr.exited_owner _ hex h).1⟩

theorem WindowOk.rely (hr : Rely s s') {w : Option Witness} (h : WindowOk s w) :
    WindowOk s' w := fun w' hw' => (h w' hw').rely hr

/-- The memory of a waiter is stable under the steps of everybody else. -/
theorem LocalOk.rely (hr : Rely s s') {pc : Pc} (h : LocalOk s pc) : LocalOk s' pc := by
  cases pc with
  | idle | oddMark | holding | zeroStore | takeoverLoad | startGeneration | takeoverMark _ =>
      trivial
  | contend w | acquireCas w | takeoverOwner w => exact WindowOk.rely hr h
  | takeoverProbe o w =>
    obtain ⟨⟨p, hp, ho⟩, hw⟩ := h
    exact ⟨⟨p, hr.born hp, ho⟩, hw.rely hr⟩
  | takeoverBump o w => exact ⟨hr.exited _ h.1, h.2.rely hr⟩
  | takeoverCas o w =>
    obtain ⟨hex, hends, hw⟩ := h
    refine ⟨hr.exited _ hex, fun ho m hm => ?_, hw.rely hr⟩
    obtain ⟨ho', he⟩ := hr.exited_owner o hex ho
    exact (hends ho' m (he ▸ hm)).trans_le hr.marks_le
  | startOwner g m => exact ⟨h.1, h.2.trans hr.marks_le⟩
  | endOwner w | finalOwner w | endGeneration w o => exact WitnessOk.rely hr h
  | finalGeneration w o h' =>
    obtain ⟨hw, hh⟩ := h
    refine ⟨hw.rely hr, fun hm ho => hh ?_ ho⟩
    exact le_antisymm (hm ▸ hr.marks_le) hw.2.2.1
  | stalled w h' => exact fun hm => h (hr.marks_le.trans_lt hm)

/-! ### Preservation, one lemma per kind of move -/

section preserved

variable {s : State} {t : Thread} {pc' : Pc} {s' : State} {pc : Pc}

theorem sectionOk_of_not_inSection (h : pc.inSection = false) : SectionOk s pc := by
  cases pc <;> simp_all [Pc.inSection, SectionOk]

/-- Outside the section nothing is claimed; inside, only the marks, the ends and the budget
matter. -/
theorem SectionOk.congr (h : SectionOk s pc) (hm : s'.marks = s.marks)
    (he : s'.endMarks = s.endMarks) (hb : s.budget ≤ s'.budget) : SectionOk s' pc := by
  cases pc <;> simp only [SectionOk, hm, he] at h ⊢ <;>
    first | trivial | omega | exact ⟨h.1, by omega⟩ | exact ⟨h.1, h.2.1, by omega⟩

/-- A bump of the generation by a waiter keeps what the section in force knows. -/
theorem SectionOk.bump (h : SectionOk s pc) (hm : s'.marks = s.marks + 2)
    (he : s'.endMarks = s.endMarks) (hb : s'.budget = s.budget + 2) : SectionOk s' pc := by
  cases pc <;> simp only [SectionOk, hm, he, hb] at h ⊢ <;> try trivial
  · omega
  · exact ⟨by omega, fun m hmem => by have := h.2.1 m hmem; omega, by omega⟩
  · exact ⟨by omega, fun m hmem => by have := h.2 m hmem; omega⟩
  · omega
  · omega

theorem localOk_of_inSection (h : pc.inSection = true) : LocalOk s pc := by
  cases pc <;> simp_all [Pc.inSection, LocalOk]

/-- The generation is marked, and the bumps are counted. -/
def State.marked (s : State) (g m b : ℕ) : State :=
  { s with generation := g, marks := m, bumps := b }

theorem Rely.marked {g m b : ℕ} (hm : s.marks ≤ m) : Rely s ((s.marked g m b).goto t pc') := by
  rcases hm.eq_or_lt with heq | hlt
  · exact Rely.of_same_words (fun _ h => h) (fun _ h => h) heq.symm rfl rfl rfl
  · exact Rely.of_marks rfl hlt rfl rfl

section

variable (hs : Inv s)

include hs

/-- The memory of all waiters after `t` moved to `pc'`. -/
theorem Inv.local_ok_goto (hr : Rely s s') (hlive : s'.procs.live = s.procs.live)
    (hpc : s'.pc = update s.pc t pc') (hnew : LocalOk s' pc') :
    ∀ t', t'.1 ∈ s'.procs.live → LocalOk s' (s'.pc t') := by
  rw [hpc]
  exact (forall_update_iff s.pc fun t' c => t'.1 ∈ s'.procs.live → LocalOk s' c).2
    ⟨fun _ => hnew, fun t' _ ht' => (hs.local_ok t' (hlive ▸ ht')).rely hr⟩

theorem Inv.generation_add (n : ℕ) :
    (s.addGeneration n).generation = (s.addGeneration n).marks % 2 ^ 64 := by
  rw [addGeneration, hs.generation_eq, Nat.mod_add_mod]

/-- The ends of the holds after one that ends now. -/
theorem Inv.ends_endHold (o : ℕ) :
    (s.endHold o).ends = (s.endHold o).endMarks.map (· % 2 ^ 64) ∧
      ∀ m ∈ (s.endHold o).endMarks, m ≤ s.marks := by
  refine ⟨?_, fun m hm => ?_⟩
  · simp only [endHold, List.map_cons, hs.ends_eq, hs.generation_eq]
  · rcases List.mem_cons.mp hm with rfl | hm
    · exact le_rfl
    · exact hs.ends_le m hm

theorem Inv.start {p : Incarnation} (hp : s.procs.Startable p) :
    Inv { s with procs := s.procs.start p hp } := by
  have hlive : ∀ t : Thread, t.1 ∈ (s.procs.start p hp).live → (s.pc t) ≠ .idle →
      t.1 ∈ s.procs.live := by
    intro t ht hne
    rcases (ProcessTable.mem_live_start hp).mp ht with heq | ht
    · exact absurd (hs.unborn_idle t (heq ▸ hp.not_mem_born)) hne
    · exact ht
  have hr : Rely s { s with procs := s.procs.start p hp } :=
    .of_same_words (fun q hq => (ProcessTable.mem_born_start hp).mpr (.inr hq)) (fun _ h => h.start hp)
      rfl rfl rfl rfl
  refine { hs with
    owner_born := hs.owner_born.imp_right fun ⟨q, hq, ho⟩ => ⟨q, hr.born hq, ho⟩
    unborn_idle := fun t ht => hs.unborn_idle t fun h => ht (hr.born h)
    section_owner := fun t ht hin => hs.section_owner t (hlive t ht ?_) hin
    section_ok := fun t ho => (hs.section_ok t ho).congr rfl rfl le_rfl
    local_ok := fun t ht => ?_ }
  · intro h
    rw [show s.pc t = .idle from h] at hin
    cases hin
  · by_cases hidle : s.pc t = .idle
    · change LocalOk _ (s.pc t)
      rw [hidle]
      trivial
    · exact (hs.local_ok t (hlive t ht hidle)).rely hr

theorem Inv.exit (p : Incarnation) : Inv { s with procs := s.procs.exit p } := by
  have hlive : ∀ q, q ∈ (s.procs.exit p).live → q ∈ s.procs.live := fun q hq =>
    (ProcessTable.mem_live_exit.mp hq).2
  have hr : Rely s { s with procs := s.procs.exit p } :=
    .of_same_words (fun _ h => h) (fun _ h => h.exit p) rfl rfl rfl rfl
  exact { hs with
    section_owner := fun t ht => hs.section_owner t (hlive _ ht)
    section_ok := fun t ho => (hs.section_ok t ho).congr rfl rfl le_rfl
    local_ok := fun t ht => (hs.local_ok t (hlive _ ht)).rely hr }

end

section

variable (hs : Inv s) (ht : t.1 ∈ s.procs.live)

include hs ht

/-- The threads of processes that never started stay idle when a live thread moves. -/
theorem Inv.unborn_idle_goto (hborn : s'.procs.born = s.procs.born) (hpc : s'.pc = update s.pc t pc') :
    ∀ t', t'.1 ∉ s'.procs.born → s'.pc t' = .idle := by
  intro t' ht'
  rw [hborn] at ht'
  have htt : t' ≠ t := by
    rintro rfl
    exact ht' (s.procs.live_born ht)
  rw [hpc, update_of_ne htt]
  exact hs.unborn_idle t' ht'

/-- What a live thread remembers at its control point. -/
theorem Inv.local_at (hpc : s.pc t = pc) : LocalOk s pc :=
  hpc ▸ hs.local_ok t ht

/-- What holds at the control point of a live thread in the section. -/
theorem Inv.section_at (hpc : s.pc t = pc) (hin : pc.inSection = true) : SectionOk s pc := by
  subst hpc
  exact hs.section_ok t (hs.section_owner t ht hin)

/-- A control point reached by a local move remembers what it should. -/
theorem Inv.localOk_of_localMove (h : LocalMove s t pc') : LocalOk s pc' := by
  cases h with
  | sawUnowned h | endOwner h | timeout h => exact (hs.local_at ht h :)
  | keepWaiting h | poll h => rcases h with h | h <;> exact (hs.local_at ht h :)
  | @notTaken w h =>
    have hw : WindowOk s w := by
      rcases h with h | ⟨o, h⟩ | ⟨o, h⟩
      · exact hs.local_at ht h
      · exact (hs.local_at ht h).2
      · exact (hs.local_at ht h).2.2
    cases w with
    | none => trivial
    | some w => exact hw w rfl
  | loadedOwner h h0 => exact ⟨hs.owner_born.resolve_left h0, hs.local_at ht h⟩
  | foundExited h hb he =>
    obtain ⟨ho, hw⟩ := hs.local_at ht h
    exact ⟨exited_of_processInstanceHasExited ht ho hb he, hw⟩
  | startGeneration h => exact ⟨hs.generation_eq, le_rfl⟩
  | @openWindow g m h hg h0 =>
    obtain ⟨hgm, hm⟩ := hs.local_at ht h
    intro w' hw'
    cases hw'
    refine ⟨hgm, ?_, hm, fun _ => .inl ⟨rfl, rfl⟩⟩
    change m % 2 = 1
    omega
  | noWindow h => exact fun w' hw' => by cases hw'
  | keepWindow h =>
    intro w' hw'
    cases hw'
    exact hs.local_at ht h
  | @finalOwner w h =>
    have hl : WitnessOk s w := hs.local_at ht h
    refine ⟨hl, fun hm ho => ?_⟩
    rcases hl.2.2.2 hm with ⟨-, ha⟩ | ⟨-, hne⟩
    · exact ha
    · exact absurd ho hne
  | @verdict w o h' h ho hg hself =>
    obtain ⟨⟨hwg, -, hle, -⟩, hh⟩ := hs.local_at ht h
    intro hlt
    -- without a wrap, equal generation words are equal counts of increments
    have hword : s.marks % 2 ^ 64 = w.marks % 2 ^ 64 := by rw [← hs.generation_eq, hg, hwg]
    rw [Nat.mod_eq_of_lt hlt, Nat.mod_eq_of_lt (hle.trans_lt hlt)] at hword
    exact hh hword ho

/-- A thread outside the section moves to another control point outside it, and may mark the
generation. -/
theorem Inv.outside (hout' : pc'.inSection = false) {g m b : ℕ} (hg : g = m % 2 ^ 64) (hm : s.marks ≤ m)
    (heven : m % 2 = s.marks % 2) (hb : m ≤ (s.marked g m b).budget)
    (hok : ∀ pc, SectionOk s pc → SectionOk (s.marked g m b) pc)
    (hl : LocalOk ((s.marked g m b).goto t pc') pc') : Inv ((s.marked g m b).goto t pc') := by
  have hsec : ∀ t', (update s.pc t pc' t').inSection = true → (s.pc t').inSection = true := by
    refine (forall_update_iff s.pc fun t' c => c.inSection = true → (s.pc t').inSection = true).2
      ⟨fun h' => ?_, fun _ _ h' => h'⟩
    exact nomatch hout'.symm.trans h'
  exact { hs with
    generation_eq := hg
    unborn_idle := hs.unborn_idle_goto ht rfl rfl
    unowned_even := fun h0 => heven.trans (hs.unowned_even h0)
    section_owner := fun t' ht' h' => hs.section_owner t' ht' (hsec t' h')
    section_unique := fun t₁ t₂ h₁ h₂ => hs.section_unique t₁ t₂ (hsec t₁ h₁) (hsec t₂ h₂)
    section_ok := (forall_update_iff s.pc fun t' c => s.owner = t'.1.processInstance → SectionOk _ c).2
      ⟨fun _ => sectionOk_of_not_inSection hout', fun t' _ ho =>
        (hok _ (hs.section_ok t' ho)).congr rfl rfl le_rfl⟩
    marks_le := hb
    ends_le := fun k hk => (hs.ends_le k hk).trans hm
    local_ok := hs.local_ok_goto (.marked hm) rfl rfl hl }

theorem Inv.goto (hout' : pc'.inSection = false) (hl : LocalOk s pc') : Inv (s.goto t pc') :=
  hs.outside ht hout' hs.generation_eq le_rfl rfl hs.marks_le (fun _ h => h.congr rfl rfl le_rfl)
    (hl.rely (.marked le_rfl))

/-- The thread inside the section in force moves on in it and marks the generation. -/
theorem Inv.mark (hin : (s.pc t).inSection = true) (hin' : pc'.inSection = true) {g m : ℕ}
    (hg : g = m % 2 ^ 64) (hm : s.marks ≤ m) (hb : m ≤ s.budget)
    (hok : SectionOk (s.marked g m s.bumps) pc') : Inv ((s.marked g m s.bumps).goto t pc') := by
  have ho : s.owner = t.1.processInstance := hs.section_owner t ht hin
  have hsec : ∀ t', (update s.pc t pc' t').inSection = (s.pc t').inSection :=
    Updates.proj_update Pc.inSection (hin'.trans hin.symm)
  refine { hs with
    generation_eq := hg
    unborn_idle := hs.unborn_idle_goto ht rfl rfl
    unowned_even := fun h0 => absurd (ho.symm.trans h0) t.1.processInstance_ne_zero
    section_owner := fun t' ht' h' => hs.section_owner t' ht' ((hsec t').symm.trans h')
    section_unique := fun t₁ t₂ h₁ h₂ =>
      hs.section_unique t₁ t₂ ((hsec t₁).symm.trans h₁) ((hsec t₂).symm.trans h₂)
    section_ok := (forall_update_iff s.pc fun t' c => s.owner = t'.1.processInstance → SectionOk _ c).2
      ⟨fun _ => hok.congr rfl rfl le_rfl, fun t' htt ho' => sectionOk_of_not_inSection ?_⟩
    marks_le := hb
    ends_le := fun k hk => (hs.ends_le k hk).trans hm
    local_ok := hs.local_ok_goto (.marked hm) rfl rfl (localOk_of_inSection hin') }
  by_contra hne
  exact htt (hs.section_unique t' t (by simpa using hne) hin ho' ho)

/-- While the owner word names no thread of a live process, no thread of it is in the section. -/
theorem Inv.not_inSection (ho : s.owner ≠ t.1.processInstance) {t' : Thread}
    (heq : t'.1.processInstance = t.1.processInstance) : (s.pc t').inSection = false := by
  by_contra hin
  have hin : (s.pc t').inSection = true := by simpa using hin
  have htt : t'.1 = t.1 := s.procs.instance_unique t'.1 (hs.born_of_inSection hin) t.1
    (s.procs.live_born ht) heq
  exact ho ((hs.section_owner t' (htt ▸ ht) hin).trans heq)

/-- A live thread enters the section while no live process owns the word: an acquisition or a
takeover. -/
theorem Inv.enter (hfree : ∀ p ∈ s.procs.live, s.owner ≠ p.processInstance) (hin' : pc'.inSection = true)
    (hprocs : s'.procs = s.procs) (howner : s'.owner = t.1.processInstance)
    (hgen : s'.generation = s.generation) (hmarks : s'.marks = s.marks) (hpc : s'.pc = update s.pc t pc')
    (hb : s.budget ≤ s'.budget) (hok : SectionOk s' pc') (hends : s'.ends = s'.endMarks.map (· % 2 ^ 64))
    (hsorted : s'.endMarks.Pairwise (· > ·)) (hle : ∀ m ∈ s'.endMarks, m ≤ s'.marks) (hr : Rely s s') :
    Inv s' := by
  have hpc' : ∀ t', s'.pc t' = if t' = t then pc' else s.pc t' := by
    intro t'
    rw [hpc]
    exact update_apply _ _ _ _
  -- nobody else of the entering process is inside
  have hself : ∀ t', (s'.pc t').inSection = true → s'.owner = t'.1.processInstance → t' = t := by
    intro t' hin ho
    by_contra htt
    rw [hpc', if_neg htt, hs.not_inSection ht (hfree _ ht) (ho.symm.trans howner)] at hin
    cases hin
  refine
    { generation_eq := by rw [hgen, hmarks]; exact hs.generation_eq
      owner_born := .inr ⟨t.1, hprocs ▸ s.procs.live_born ht, howner⟩
      unborn_idle := hs.unborn_idle_goto ht (by rw [hprocs]) hpc
      unowned_even := fun h0 => absurd (howner.symm.trans h0) t.1.processInstance_ne_zero
      section_owner := fun t' ht' hin => ?_
      section_unique := fun t₁ t₂ h₁ h₂ ho₁ ho₂ => (hself t₁ h₁ ho₁).trans (hself t₂ h₂ ho₂).symm
      section_ok := fun t' ho => ?_
      marks_le := hmarks ▸ hs.marks_le.trans hb
      ends_eq := hends
      ends_sorted := hsorted
      ends_le := hle
      local_ok := hs.local_ok_goto hr (by rw [hprocs]) hpc (localOk_of_inSection hin') }
  · by_cases htt : t' = t
    · rw [htt, howner]
    · rw [hpc', if_neg htt] at hin
      have hlive : t'.1 ∈ s.procs.live := hprocs ▸ ht'
      exact absurd (hs.section_owner t' hlive hin) (hfree _ hlive)
  · by_cases htt : t' = t
    · rw [htt, hpc', if_pos rfl]
      exact hok
    · apply sectionOk_of_not_inSection
      by_contra hin
      exact htt (hself t' (by simpa using hin) ho)

theorem Inv.acquire (h0 : s.owner = 0) :
    Inv ({ s with owner := t.1.processInstance, locks := s.locks + 1 }.goto t .oddMark) := by
  have heven := hs.unowned_even h0
  have hb := hs.marks_le
  refine hs.enter ht (fun p _ hp => p.processInstance_ne_zero (hp.symm.trans h0)) rfl rfl rfl rfl
    rfl rfl ?_ ⟨heven, ?_⟩ hs.ends_eq hs.ends_sorted hs.ends_le
    (.of_owner rfl rfl (fun o hex => (hex.ne_of_live ht).symm) fun hodd => by omega)
  · simp only [budget, goto_locks, goto_bumps, goto_takeovers]
    omega
  · simp only [budget, goto_locks, goto_bumps, goto_takeovers, goto_marks] at hb ⊢
    omega

theorem Inv.takeover {w : Option Witness} (hpc : s.pc t = .takeoverCas s.owner w) :
    Inv ({ s.endHold t.1.processInstance with takeovers := s.takeovers + 1 }.goto t
      .takeoverLoad) := by
  obtain ⟨hex, hends, -⟩ := hs.local_at ht hpc
  obtain ⟨heq, hle⟩ := hs.ends_endHold t.1.processInstance
  have hb := hs.marks_le
  refine hs.enter ht (fun p hp => hex.ne_of_live hp) rfl rfl rfl rfl rfl rfl ?_ ?_ heq
    (List.pairwise_cons.mpr ⟨hends rfl, hs.ends_sorted⟩) hle
    (.of_owner rfl rfl (fun o hex' => (hex'.ne_of_live ht).symm) fun _ => ⟨hex, (hex.ne_of_live ht).symm⟩)
  · simp only [budget, endHold, goto_locks, goto_bumps, goto_takeovers]
    omega
  · simp only [SectionOk, budget, endHold, goto_locks, goto_bumps, goto_takeovers,
      goto_marks] at hb ⊢
    omega

theorem Inv.zeroStore (hpc : s.pc t = .zeroStore) : Inv ((s.endHold 0).goto t .idle) := by
  have hin : (s.pc t).inSection = true := by rw [hpc]; rfl
  have ho : s.owner = t.1.processInstance := hs.section_owner t ht hin
  obtain ⟨heven, hends⟩ := hs.section_at ht hpc rfl
  obtain ⟨heq, hle⟩ := hs.ends_endHold 0
  have hne : ∀ p : Incarnation, (0 : ℕ) ≠ p.processInstance := fun p =>
    p.processInstance_ne_zero.symm
  have hr : Rely s ((s.endHold 0).goto t .idle) :=
    .of_owner rfl rfl (fun o hex => hex.ne_zero.symm) fun hodd => by omega
  refine
    { generation_eq := hs.generation_eq
      owner_born := .inl rfl
      unborn_idle := hs.unborn_idle_goto ht rfl rfl
      unowned_even := fun _ => heven
      section_owner := fun t' ht' hin' => ?_
      section_unique := fun t₁ _ _ _ h => absurd h (hne t₁.1)
      section_ok := fun t' h => absurd h (hne t'.1)
      marks_le := hs.marks_le
      ends_eq := heq
      ends_sorted := List.pairwise_cons.mpr ⟨hends, hs.ends_sorted⟩
      ends_le := hle
      local_ok := hs.local_ok_goto hr rfl rfl trivial }
  rw [goto_pc] at hin'
  split_ifs at hin' with htt
  · cases hin'
  · have ho' := hs.section_owner t' ht' hin'
    exact absurd (hs.section_unique t' t hin' hin ho' ho) htt

theorem Inv.bump {o : ℕ} {w : Option Witness} (hpc : s.pc t = .takeoverBump o w) :
    Inv ({ s.addGeneration 2 with bumps := s.bumps + 1 }.goto t (.takeoverCas o w)) := by
  obtain ⟨hex, hw⟩ := hs.local_at ht hpc
  have hbudget : (s.marked ((s.generation + 2) % 2 ^ 64) (s.marks + 2) (s.bumps + 1)).budget =
      s.budget + 2 := by
    simp only [budget, marked]
    omega
  refine hs.outside ht rfl ?_ (Nat.le_add_right _ 2) (Nat.add_mod_right _ 2) ?_
    (fun pc h => h.bump rfl rfl hbudget)
    ⟨hex, fun _ m hm => ?_, hw.rely (.marked (Nat.le_add_right _ 2))⟩
  · exact hs.generation_add 2
  · exact hbudget.ge.trans' (Nat.add_le_add_right hs.marks_le 2)
  · exact (hs.ends_le m hm).trans_lt (Nat.lt_add_of_pos_right two_pos)

/-- The odd mark of an acquisition and the even mark of an unlock. -/
theorem Inv.addGeneration_one (hin : (s.pc t).inSection = true) (hin' : pc'.inSection = true)
    (hb : s.marks + 1 ≤ s.budget) (hok : SectionOk (s.addGeneration 1) pc') :
    Inv ((s.addGeneration 1).goto t pc') := by
  exact hs.mark ht hin hin' (hs.generation_add 1) (Nat.le_succ _) hb hok

theorem Inv.move (h : Move s t s') : Inv s' := by
  cases h with
  | «local» h => exact hs.goto ht h.inSection_eq_false.2 (hs.localOk_of_localMove ht h)
  | acquire _ h0 => exact hs.acquire ht h0
  | oddMark h =>
    obtain ⟨heven, hb⟩ := hs.section_at ht h rfl
    refine hs.addGeneration_one ht (by rw [h]; rfl) rfl (by omega) ⟨?_, fun m hm => ?_, hb⟩
    · change (s.marks + 1) % 2 = 1
      omega
    · exact Nat.lt_succ_of_le (hs.ends_le m hm)
  | zeroStore h => exact hs.zeroStore ht h
  | bump h => exact hs.bump ht h
  | takeover h ho => exact hs.takeover ht (ho ▸ h)
  | reload h =>
    have hin : (s.pc t).inSection = true := by rcases h with h | ⟨a, h⟩ <;> rw [h] <;> rfl
    refine hs.mark ht hin rfl hs.generation_eq le_rfl hs.marks_le ?_
    rcases h with h | ⟨a, h⟩ <;> exact (hs.section_at ht h rfl :)
  | @takeoverMark actual h hg =>
    have hb : s.marks + 3 ≤ s.budget := hs.section_at ht h rfl
    have hpar : actual % 2 = s.marks % 2 := by
      rw [← hg, hs.generation_eq]
      omega
    refine hs.mark ht (by rw [h]; rfl) rfl (hs.generation_add _) (Nat.le_add_right _ _) ?_
      ⟨?_, fun m hm => ?_, ?_⟩
    · split_ifs <;> omega
    · change (s.marks + _) % 2 = 1
      split_ifs <;> omega
    · have := hs.ends_le m hm
      change m < s.marks + _
      split_ifs <;> omega
    · change s.marks + _ + 1 ≤ s.budget
      split_ifs <;> omega

end

end preserved

/-! ### Every reachable state -/

theorem Inv.step {s' : State} {a : Action} (hs : Inv s) (h : s.step a = some s') : Inv s' := by
  cases a with
  | start p =>
    simp only [State.step] at h
    split_ifs at h with hp
    cases h
    exact hs.start hp
  | exit p =>
    obtain ⟨-, rfl⟩ := of_guard h
    exact hs.exit p
  | lock t =>
    obtain ⟨hc, rfl⟩ := of_guard h
    exact hs.goto hc.1 rfl fun w' hw' => by cases hw'
  | unlock t =>
    obtain ⟨hc, rfl⟩ := of_guard h
    obtain ⟨hodd, hends, hb⟩ := hs.section_at hc.1 hc.2 rfl
    refine hs.addGeneration_one hc.1 (by rw [hc.2]; rfl) rfl hb ⟨?_, fun m hm => ?_⟩
    · change (s.marks + 1) % 2 = 0
      omega
    · exact (hends m hm).trans (Nat.lt_succ_self _)
  | next t b c =>
    simp only [State.step] at h
    split_ifs at h with ht
    exact hs.move ht (move_of_next h)

/-- The invariant holds in every state the spinlock can reach. -/
theorem reachable_inv (h : machine.Reachable s) : Inv s := by
  refine h.invariant (fun s hs => ?_) fun s a s' hs hstep => hs.step hstep
  rw [show s = initial from hs]
  exact Inv.initial

end Sintra.Ipc.Spinlock
