import Sintra.Ring.Wakeups

/-!
# No wakeup is lost

A reader blocks on its semaphore only after it has registered under `m_spinlock` and found there that
nothing is due. Whatever makes something due later is published under the same lock, and the section
that publishes it posts every reader that is registered.
-/

namespace Sintra.Ring

open Function

namespace IndexStack

variable {α : Type*} [DecidableEq α]

variable {stack : List α}

/-- `Index_stack::remove_value` removes the value, in some order. -/
theorem removeValue_perm (h : stack.Nodup) (value : α) :
    (removeValue stack value).Perm (stack.erase value) := by
  unfold removeValue
  rcases List.eq_nil_or_concat stack with rfl | ⟨init, last, rfl⟩
  · simp
  · rw [List.concat_eq_append] at h ⊢
    simp only [List.getLast?_append, List.getLast?_singleton, Option.some_or]
    obtain ⟨-, -, hlast⟩ := List.nodup_append.1 h
    obtain rfl | hvalue := eq_or_ne last value
    · have hnot : last ∉ init := fun hmem => hlast last hmem last (by simp) rfl
      rw [if_pos rfl, List.dropLast_concat, List.erase_append_right _ hnot, List.erase_cons_head,
        List.append_nil]
    · rw [if_neg hvalue]
      by_cases hmem : value ∈ init
      · -- the last entry moves into the gap
        obtain ⟨before, after, rfl, hbefore⟩ := List.eq_append_cons_of_mem hmem
        rw [if_pos (by simp)]
        have hshape : before ++ value :: after ++ [last] = before ++ value :: (after ++ [last]) := by
          simp
        have hindex : (before ++ value :: (after ++ [last])).idxOf value = before.length := by
          rw [List.idxOf_append_of_notMem hbefore, List.idxOf_cons_self, Nat.add_zero]
        rw [hshape, hindex, List.set_append_right _ _ le_rfl, Nat.sub_self, List.set_cons_zero,
          List.erase_append_right _ hbefore, List.erase_cons_head, ← List.cons_append,
          ← List.append_assoc, List.dropLast_concat]
        exact (List.perm_append_singleton last after).symm.append_left before
      · have hnot : value ∉ init ++ [last] := by simp [hmem, Ne.symm hvalue]
        rw [if_neg hnot, List.erase_of_not_mem hnot]

theorem mem_removeValue (h : stack.Nodup) {value x : α} :
    x ∈ removeValue stack value ↔ x ≠ value ∧ x ∈ stack := by
  rw [(removeValue_perm h value).mem_iff, h.mem_erase_iff]

theorem nodup_removeValue (h : stack.Nodup) (value : α) :
    (removeValue stack value).Nodup :=
  (removeValue_perm h value).nodup_iff.2 (h.erase value)

end IndexStack

namespace Wakeups

open IndexStack

variable {n : ℕ}

/-! ### What holds of a reader that waits -/

/-- There is something for which the reader must not sleep. -/
def State.Due (s : State n) (i : Fin n) : Prop :=
  (s.readers i).reading ≠ s.leading ∨ s.closed = true ∨ (s.readers i).stopping = true ∨
    s.unblock ≠ (s.readers i).seen

/-- The section under way is still to post the reader. -/
def State.AboutToPost (s : State n) (i : Fin n) : Prop :=
  match s.inside with
  | some (.flush k _) => i ∈ s.stack.take k
  | some (.stop j) => j = i
  | none => False

/-- The reader will be woken: it has a token, or is about to be posted, or a failed post is kept for
replay. -/
def State.Woken (s : State n) (i : Fin n) : Prop :=
  s.token i = true ∨ s.AboutToPost i ∨ (i ∈ s.stack ∧ s.failed i = true)

/-- What holds of a reader that waits: its index is on the stack or it has a token, and if something
is due it has a token, or is about to be posted, or a failed post is kept for replay. -/
structure Safe (s : State n) (i : Fin n) : Prop where
  sleepy : (s.readers i).sleepy = true
  parked : i ∉ s.stack → s.token i = true
  posted : ∀ k errors, s.inside = some (.flush k errors) → i ∈ s.stack.drop k →
    s.token i = true ∨ (errors = true ∧ s.failed i = true)
  woken : s.Due i → s.Woken i

structure Inv (s : State n) : Prop where
  nodup : s.stack.Nodup
  sleepy : ∀ i ∈ s.stack, (s.readers i).sleepy = true
  safe : ∀ i, (s.readers i).pc.waiting = true → Safe s i

variable {s : State n}

theorem inv_initial (h : s.Initial) : Inv s := by
  obtain ⟨hstack, -, -, hreaders⟩ := h
  refine ⟨by simp [hstack], by simp [hstack], fun i hi => ?_⟩
  simp [(hreaders i).1, Pc.waiting] at hi

section

variable {s t : State n} {i j : Fin n}

/-! ### Steps of a reader -/

/-- What the others' steps have to leave alone. The order of the stack only matters in a section. -/
theorem Safe.transfer (h : Safe s i) {c : Pc} (hreader : t.readers i = { s.readers i with pc := c })
    (htoken : t.token i = s.token i) (hfailed : t.failed i = s.failed i)
    (hleading : t.leading = s.leading) (hclosed : t.closed = s.closed)
    (hunblock : t.unblock = s.unblock) (hinside : t.inside = s.inside)
    (hstack : t.stack = s.stack ∨ s.inside = none ∧ (i ∈ t.stack ↔ i ∈ s.stack)) : Safe t i := by
  have hmem : i ∈ t.stack ↔ i ∈ s.stack := by
    rcases hstack with hstack | ⟨-, hstack⟩
    · rw [hstack]
    · exact hstack
  constructor
  · rw [hreader]
    exact h.sleepy
  · rw [hmem, htoken]
    exact h.parked
  · intro k errors hk
    rw [hinside] at hk
    rcases hstack with hstack | ⟨hnone, -⟩
    · rw [hstack, htoken, hfailed]
      exact h.posted k errors hk
    · simp [hnone] at hk
  · intro hdue
    have hwoken := h.woken (by rwa [State.Due, hreader, hleading, hclosed, hunblock] at hdue)
    unfold State.Woken at hwoken ⊢
    rw [hmem, htoken, hfailed]
    refine hwoken.imp_right (Or.imp_left fun habout => ?_)
    unfold State.AboutToPost at habout ⊢
    rw [hinside]
    rcases hstack with hstack | ⟨hnone, -⟩
    · rwa [hstack]
    · rw [hnone] at habout
      exact habout.elim

/-- The invariant but for what concerns reader `i`, which is in the middle of its step. -/
structure Others (s : State n) (i : Fin n) : Prop where
  nodup : s.stack.Nodup
  sleepy : ∀ j ∈ s.stack, (s.readers j).sleepy = true
  safe : ∀ j, j ≠ i → (s.readers j).pc.waiting = true → Safe s j

theorem Inv.others (hs : Inv s) (i : Fin n) : Others s i := { hs with
  safe j _ := hs.safe j }

theorem Others.inv (h : Others s i) (hi : (s.readers i).pc.waiting = true → Safe s i) : Inv s := { h with
  safe := by
    intro j
    obtain rfl | hji := eq_or_ne j i
    · exact hi
    · exact h.safe j hji }

/-- The reader changes its own record, and perhaps takes its token. -/
theorem Others.own (h : Others s i) {r : Reader} {b : Bool}
    (hsleepy : r.sleepy = (s.readers i).sleepy) :
    Others { s with
      readers := update s.readers i r
      token := update s.token i b } i where
  nodup := h.nodup
  sleepy := by
    intro j hj
    obtain rfl | hji := eq_or_ne j i
    · simp only [update_self]
      rw [hsleepy]
      exact h.sleepy j hj
    · simp only [update_of_ne hji]
      exact h.sleepy j hj
  safe := by
    intro j hji hj
    simp only [update_of_ne hji] at hj
    exact (h.safe j hji hj).transfer (update_of_ne hji _ _)
      (update_of_ne hji _ _) rfl rfl rfl rfl rfl (.inl rfl)

theorem Others.setReader (h : Others s i) {r : Reader} (hsleepy : r.sleepy = (s.readers i).sleepy) :
    Others (s.setReader i r) i := by
  have hown := h.own (b := s.token i) hsleepy
  rwa [update_eq_self] at hown

theorem Others.goto (h : Others s i) (c : Pc) : Others (s.goto i c) i := h.setReader rfl

theorem Others.clear (h : Others s i) (hinside : s.inside = none) (r : Reset) :
    Others (s.clearReaderWakeup i r) i := by
  unfold State.clearReaderWakeup
  split_ifs with hsleepy herror
  · have hown := h.own (b := s.token i && !r.drained) rfl
    rwa [update_eq_self] at hown
  · constructor
    · exact nodup_removeValue h.nodup i
    · intro j hj
      obtain ⟨hji, hmem⟩ := (mem_removeValue h.nodup).1 hj
      simp only [update_of_ne hji]
      exact h.sleepy j hmem
    · intro j hji hj
      simp only [update_of_ne hji] at hj
      refine (h.safe j hji hj).transfer (update_of_ne hji _ _)
        (update_of_ne hji _ _) rfl rfl rfl rfl rfl (.inr ⟨hinside, ?_⟩)
      rw [mem_removeValue h.nodup]
      exact and_iff_right hji
  · exact h

/-- After a reset that succeeded the reader is not registered. -/
theorem sleepy_clear {r : Reset} (h : ((s.readers i).sleepy && r.error) = false) :
    ((s.clearReaderWakeup i r).readers i).sleepy = false := by
  unfold State.clearReaderWakeup
  split_ifs with hsleepy herror
  · simp [hsleepy, herror] at h
  · simp
  · simpa using hsleepy

theorem inside_clear (s : State n) (i : Fin n) (r : Reset) :
    (s.clearReaderWakeup i r).inside = s.inside := by
  unfold State.clearReaderWakeup
  split_ifs <;> rfl

theorem Others.enroll (h : Others s i) (hinside : s.inside = none)
    (hsleepy : (s.readers i).sleepy = false) (ht : s.enroll i = some t) :
    Others t i ∧ t.inside = none ∧
      ((t.readers i).pc.waiting = true → t.unblock = (t.readers i).seen → Safe t i) := by
  have hnot : i ∉ s.stack := fun hi => by simp [h.sleepy i hi] at hsleepy
  unfold State.enroll at ht
  split_ifs at ht with hequal hstop
  · cases ht
    refine ⟨h.setReader rfl, hinside, fun hwaiting => ?_⟩
    simp [State.setReader, Pc.waiting] at hwaiting
  · obtain ⟨stack, hpush, rfl⟩ := Option.map_eq_some_iff.1 ht
    obtain ⟨hroom, ⟨⟩⟩ := Machine.of_guard hpush
    refine ⟨⟨?_, ?_, ?_⟩, hinside, fun _ hseen => ⟨?_, ?_, ?_, ?_⟩⟩
    · exact List.nodup_append.2 ⟨h.nodup, List.nodup_singleton i, by
        intro x hx y hy
        rw [List.mem_singleton] at hy
        rintro rfl
        exact hnot (hy ▸ hx)⟩
    · intro j hj
      obtain rfl | hji := eq_or_ne j i
      · simp
      · have hmem : j ∈ s.stack := by simpa [hji] using hj
        simpa [update_of_ne hji] using h.sleepy j hmem
    · intro j hji hj
      simp only [update_of_ne hji] at hj
      refine (h.safe j hji hj).transfer (update_of_ne hji _ _) rfl
        (update_of_ne hji _ _) rfl rfl rfl rfl (.inr ⟨hinside, ?_⟩)
      simp [hji]
    · simp
    · intro hout
      simp at hout
    · intro k errors hk
      simp [hinside] at hk
    · -- nothing is due: it was tested under the lock
      intro hdue
      simp only [Bool.or_eq_true, not_or, Bool.not_eq_true, State.sequencesEqual,
        decide_eq_true_eq] at hequal hstop
      simp only [update_self] at hseen
      simp [State.Due, hequal, hstop, hseen] at hdue
  · cases ht
    refine ⟨h.goto _, hinside, fun hwaiting => ?_⟩
    simp [State.goto, State.setReader, Pc.waiting] at hwaiting

theorem pc_goto (s : State n) (i : Fin n) (c : Pc) : ((s.goto i c).readers i).pc = c := by
  simp [State.goto, State.setReader]

theorem pc_clear (s : State n) (i : Fin n) (r : Reset) :
    ((s.clearReaderWakeup i r).readers i).pc = (s.readers i).pc := by
  unfold State.clearReaderWakeup
  split_ifs <;> simp

/-- The step ends at a point where the reader does not wait. -/
theorem Others.inv_goto (h : Others s i) {c : Pc} (hc : c.waiting = false) : Inv (s.goto i c) := by
  refine (h.goto c).inv fun hwaiting => ?_
  simp [pc_goto, hc] at hwaiting

theorem Others.inv_setReader (h : Others s i) {r : Reader}
    (hsleepy : r.sleepy = (s.readers i).sleepy) (hpc : r.pc.waiting = false) :
    Inv (s.setReader i r) := by
  refine (h.setReader hsleepy).inv fun hwaiting => ?_
  simp [State.setReader, hpc] at hwaiting

theorem Others.recheck (h : Others s i) (hinside : s.inside = none)
    (hsafe : (s.readers i).pc.waiting = true → s.unblock = (s.readers i).seen → Safe s i)
    (r : Reset) : Inv (s.recheck i r) := by
  unfold State.recheck
  by_cases hseen : s.unblock = (s.readers i).seen
  · rw [if_pos hseen]
    exact h.inv fun hwaiting => hsafe hwaiting hseen
  · rw [if_neg hseen]
    have hset : Others (s.setReader i { s.readers i with seen := s.unblock }) i := h.setReader rfl
    have hclear := hset.clear hinside r
    by_cases hidle : (s.readers i).pc = .idle
    · rw [if_pos hidle]
      refine hclear.inv fun hwaiting => ?_
      simp [pc_clear, State.setReader, hidle, Pc.waiting] at hwaiting
    · rw [if_neg hidle]
      exact hclear.inv_goto rfl

theorem Inv.register (hs : Inv s) (hinside : s.inside = none) (ch : Choice) :
    Inv (s.register i ch) := by
  have hclear := (hs.others i).clear hinside ch.reset
  have hfree : (s.clearReaderWakeup i ch.reset).inside = none := by rw [inside_clear, hinside]
  unfold State.register
  by_cases hfailed : ((s.readers i).sleepy && ch.reset.error) = true
  · rw [if_pos hfailed]
    exact hclear.inv_goto rfl
  · rw [if_neg hfailed]
    cases henroll : (s.clearReaderWakeup i ch.reset).enroll i with
    | none => exact hclear.inv_goto rfl
    | some t =>
      have hsleepy := sleepy_clear (by simpa using hfailed)
      obtain ⟨hothers, hnone, hsafe⟩ := hclear.enroll hfree hsleepy henroll
      exact hothers.recheck hnone hsafe ch.resetAgain

/-- **A step of a reader.** -/
theorem Inv.readerStep (hs : Inv s) {size : ℕ} {ch : Choice} (h : s.readerStep size i ch = some t) :
    Inv t := by
  have hothers := hs.others i
  unfold State.readerStep at h
  cases hpc : (s.readers i).pc
  all_goals simp only [hpc] at h
  case idle => cases h
  case register =>
    split_ifs at h with hinside
    cases h
    exact hs.register hinside ch
  case registered =>
    cases h
    split_ifs
    · exact hothers.inv_goto rfl
    · refine (hothers.goto .blocked).inv fun _ => ?_
      exact (hs.safe i (by rw [hpc]; rfl)).transfer (update_self _ _ _) rfl rfl rfl rfl
        rfl rfl (.inl rfl)
  case blocked =>
    split_ifs at h with herror htimeout htoken <;> cases h
    any_goals exact hothers.inv_goto rfl
    · refine (hothers.own (r := { s.readers i with pc := .woken false }) rfl).inv fun hwaiting => ?_
      simp [Pc.waiting] at hwaiting
  case cleanup timedOut =>
    split_ifs at h with hinside
    cases h
    refine (hothers.clear hinside ch.reset).inv_goto ?_
    cases timedOut <;> rfl
  case produce =>
    cases h
    unfold State.produceRange
    split_ifs
    · exact hothers.inv_goto rfl
    · exact hothers.inv_setReader rfl rfl
    · exact hothers.inv_setReader rfl rfl
  case drained stay =>
    split_ifs at h
    · cases h
      exact hothers.inv_setReader rfl rfl
    all_goals
      cases h
      exact hothers.inv_goto rfl
  case napUnblock | parkUnblock =>
    split_ifs at h
    · cases h
      exact hothers.inv_goto rfl
    · cases h
      exact hothers.inv_setReader rfl rfl
  -- the other points test something and go on
  all_goals
    cases h
    refine hothers.inv_goto ?_
    first | rfl | (split_ifs <;> rfl)

/-! ### Sections that post -/

/-- A section publishes something and is to post every registered reader. -/
theorem Inv.publish (hs : Inv s) {leading unblock : ℕ} {closed : Bool} {w : Writer} :
    Inv { s with
      leading := leading, closed := closed, unblock := unblock, writer := w
      inside := some (.flush s.stack.length false) } where
  nodup := hs.nodup
  sleepy := hs.sleepy
  safe := by
    intro i hi
    have hsafe := hs.safe i hi
    refine ⟨hsafe.sleepy, hsafe.parked, fun k errors hk hmem => ?_, fun _ => ?_⟩
    · obtain ⟨rfl, rfl⟩ : s.stack.length = k ∧ false = errors := by simpa using hk
      simp at hmem
    · by_cases hmem : i ∈ s.stack
      · refine .inr (.inl ?_)
        simpa [State.AboutToPost] using hmem
      · exact .inl (hsafe.parked hmem)

theorem Inv.requestStop (hs : Inv s) (hinside : s.inside = none) :
    Inv { s.setReader i { s.readers i with stopping := true } with inside := some (.stop i) } := by
  have hothers : Others (s.setReader i { s.readers i with stopping := true }) i :=
    (hs.others i).setReader rfl
  refine ⟨hothers.nodup, hothers.sleepy, fun j hj => ?_⟩
  have hwaiting : (s.readers j).pc.waiting = true := by
    obtain rfl | hji := eq_or_ne j i
    · simpa [State.setReader] using hj
    · simpa [State.setReader, update_of_ne hji] using hj
  have hsafe := hs.safe j hwaiting
  obtain rfl | hji := eq_or_ne j i
  · refine ⟨?_, hsafe.parked, fun k errors hk => by simp at hk, fun _ => .inr (.inl rfl)⟩
    simpa [State.setReader] using hsafe.sleepy
  · have hsame : (s.setReader i { s.readers i with stopping := true }).readers j = s.readers j :=
      update_of_ne hji _ _
    refine ⟨?_, hsafe.parked, fun k errors hk => by simp at hk, fun hdue => ?_⟩
    · rw [hsame]
      exact hsafe.sleepy
    · have hdue' : s.Due j := by
        unfold State.Due at hdue ⊢
        rwa [hsame] at hdue
      rcases hsafe.woken hdue' with htoken | habout | hfailed
      · exact .inl htoken
      · simp [State.AboutToPost, hinside] at habout
      · exact .inr (.inr hfailed)

theorem token_post (p : Post) (h : s.token j = true) : (s.post i p).token j = true := by
  obtain rfl | hji := eq_or_ne j i
  · simp [State.post, h]
  · simpa [State.post, update_of_ne hji] using h

theorem failed_post (p : Post) (h : s.failed j = true) : (s.post i p).failed j = true := by
  obtain rfl | hji := eq_or_ne j i
  · simp [State.post, h]
  · simpa [State.post, update_of_ne hji] using h

/-- A post leaves a token or a trace. -/
theorem post_self (s : State n) (i : Fin n) (p : Post) :
    (s.post i p).token i = true ∨ p.error = true ∧ (s.post i p).failed i = true := by
  cases herror : p.error <;> simp [State.post, herror]

/-- A post, in a section or not, when what is about to be posted afterwards is known. -/
theorem Inv.post (hs : Inv s) (p : Post) (inside : Option (Section n))
    (hposted : ∀ j k errors, (s.readers j).pc.waiting = true → inside = some (.flush k errors) →
      j ∈ s.stack.drop k →
        (s.post i p).token j = true ∨ errors = true ∧ (s.post i p).failed j = true)
    (habout : ∀ j, (s.readers j).pc.waiting = true → s.AboutToPost j →
      State.Woken { s.post i p with inside := inside } j) :
    Inv { s.post i p with inside := inside } := { hs with
  safe := by
    intro j hj
    have hsafe := hs.safe j hj
    refine ⟨hsafe.sleepy, fun hout => token_post p (hsafe.parked hout),
      fun k errors hk hmem => hposted j k errors hj hk hmem, fun hdue => ?_⟩
    rcases hsafe.woken hdue with htoken | habout' | ⟨hmem, hfailed⟩
    · exact .inl (token_post p htoken)
    · exact habout j hj habout'
    · exact .inr (.inr ⟨hmem, failed_post p hfailed⟩) }

theorem Inv.postNext (hs : Inv s) {p : Post} (h : s.postNext p = some t) : Inv t := by
  unfold State.postNext at h
  split at h
  next k errors hinside =>
    split at h
    next i hi =>
      cases h
      obtain ⟨hk, hget⟩ := List.getElem?_eq_some_iff.1 hi
      have hmem : i ∈ s.stack := hget ▸ List.getElem_mem hk
      refine hs.post p _ ?_ ?_
      · intro j k' errors' hj hflush hdrop
        obtain ⟨rfl, rfl⟩ : k = k' ∧ (errors || p.error) = errors' := by simpa using hflush
        rw [List.drop_eq_getElem_cons hk, hget, List.mem_cons] at hdrop
        rcases hdrop with rfl | hdrop
        · exact (post_self s j p).imp_right (And.imp_left fun herror => by simp [herror])
        · rcases (hs.safe j hj).posted (k + 1) errors hinside hdrop with htoken | ⟨herrors, hfailed⟩
          · exact .inl (token_post p htoken)
          · exact .inr ⟨by simp [herrors], failed_post p hfailed⟩
      · intro j hj habout
        have htake : j ∈ s.stack.take (k + 1) := by
          unfold State.AboutToPost at habout
          rwa [hinside] at habout
        rw [List.take_succ_eq_append_getElem hk, hget, List.mem_append, List.mem_singleton] at htake
        rcases htake with htake | rfl
        · exact .inr (.inl htake)
        · rcases post_self s j p with htoken | ⟨-, hfailed⟩
          · exact .inl htoken
          · exact .inr (.inr ⟨hmem, hfailed⟩)
    next => cases h
  next i hinside =>
    split_ifs at h
    cases h
    refine hs.post p none (fun j k errors _ hflush => by cases hflush) ?_
    intro j hj habout
    obtain rfl : i = j := by
      unfold State.AboutToPost at habout
      rwa [hinside] at habout
    by_cases hmem : i ∈ s.stack
    · rcases post_self s i p with htoken | ⟨-, hfailed⟩
      · exact .inl htoken
      · exact .inr (.inr ⟨hmem, hfailed⟩)
    · exact .inl (token_post p ((hs.safe i hj).parked hmem))
  next => cases h

/-- A section ends in which nobody is left to be posted. -/
theorem Inv.leaveInside (hs : Inv s) (habout : ∀ i, Safe s i → ¬s.AboutToPost i) {w : Writer} :
    Inv { s with inside := none, writer := w } := by
  refine ⟨hs.nodup, hs.sleepy, fun i hi => ?_⟩
  have hsafe := hs.safe i hi
  refine ⟨hsafe.sleepy, hsafe.parked, fun _ _ => (nomatch ·), fun hdue => ?_⟩
  rcases hsafe.woken hdue with htoken | hpost | hfailed
  · exact .inl htoken
  · exact absurd hpost (habout i hsafe)
  · exact .inr (.inr hfailed)

theorem Inv.leave (hs : Inv s) (h : s.leaveSection = some t) : Inv t := by
  unfold State.leaveSection at h
  split at h
  next errors hinside =>
    cases h
    cases errors with
    | true => exact hs.leaveInside fun i _ habout => by simp [State.AboutToPost, hinside] at habout
    | false =>
      refine ⟨List.nodup_nil, fun _ => (nomatch ·), fun i hi => ?_⟩
      have hsafe := hs.safe i hi
      -- every registered reader was posted with success
      have htoken : s.token i = true := by
        by_cases hmem : i ∈ s.stack
        · have hposted := hsafe.posted 0 false hinside (by simpa using hmem)
          simpa using hposted
        · exact hsafe.parked hmem
      exact ⟨hsafe.sleepy, fun _ => htoken, fun _ _ => (nomatch ·), fun _ => .inl htoken⟩
  next i hinside =>
    split_ifs at h with hsleepy
    cases h
    refine hs.leaveInside fun j hsafe habout => ?_
    obtain rfl : i = j := by
      unfold State.AboutToPost at habout
      rwa [hinside] at habout
    exact absurd hsafe.sleepy hsleepy
  next => cases h

end

/-! ### Every run -/

theorem Inv.step {t : State n} {size : ℕ} {act : Action n} (hs : Inv s)
    (h : (machine n size).step s act = some t) : Inv t := by
  simp only [machine] at h
  cases act with
  | wait i blocking =>
    obtain ⟨-, rfl⟩ := Machine.of_guard h
    exact (hs.others i).inv_goto rfl
  | seek i sequence =>
    obtain ⟨hpc, rfl⟩ := Machine.of_guard h
    exact (hs.others i).inv_setReader rfl (by simp [hpc, Pc.waiting])
  | reader i ch => exact hs.readerStep h
  | requestStop i =>
    obtain ⟨hinside, rfl⟩ := Machine.of_guard h
    exact hs.requestStop hinside
  | unblockLocal i p =>
    simp only [State.step] at h
    split_ifs at h with hinside hsleepy
    · cases h
      have hpost := hs.post p s.inside (i := i) (by simp [hinside]) (by
        intro j _ habout
        simp [State.AboutToPost, hinside] at habout)
      exact hpost
    · cases h
      exact hs
  | post p => exact hs.postNext h
  | leave => exact hs.leave h
  | doneWriting sequence | unblockGlobal | openWriter | closeWriter | retryClose =>
    obtain ⟨-, rfl⟩ := Machine.of_guard h
    exact hs.publish

theorem reachable_inv {size : ℕ} (h : (machine n size).Reachable s) : Inv s :=
  h.invariant (fun _ h0 => inv_initial h0) fun _ _ _ hs hstep => hs.step hstep

theorem Inv.length_le (hs : Inv s) : s.stack.length ≤ n := by
  simpa using hs.nodup.length_le_card

/-- There is room for a reader that is not registered. -/
theorem Inv.push_isSome (hs : Inv s) {i : Fin n} (hi : (s.readers i).sleepy = false) :
    (push n s.stack i).isSome = true := by
  have hnot : i ∉ s.stack := fun hmem => by simp [hs.sleepy i hmem] at hi
  have hlength : (i :: s.stack).length ≤ n := by
    simpa using (List.nodup_cons.2 ⟨hnot, hs.nodup⟩).length_le_card
  simp [push, Nat.lt_of_succ_le hlength]

/-- **No lost wakeup.** A blocked reader for which something is due will be woken. The stack holds no
index twice, is not larger than its capacity, and has room for a reader that registers. -/
theorem no_lost_wakeup {s : State n} {size : ℕ} (hs : (machine n size).Reachable s) :
    (∀ i, (s.readers i).pc = .blocked → s.Due i → s.Woken i) ∧ s.stack.Nodup ∧
      s.stack.length ≤ n ∧ ∀ i, (s.readers i).sleepy = false → (push n s.stack i).isSome = true := by
  have hinv := reachable_inv hs
  refine ⟨fun i hi hdue => ?_, hinv.nodup, hinv.length_le, fun i hi => hinv.push_isSome hi⟩
  exact (hinv.safe i (by rw [hi]; rfl)).woken hdue

/-- A ring with one reader that has nothing to read. -/
def fresh : State 1 :=
  ⟨0, false, 0, [], fun _ => false, fun _ => ⟨0, 0, false, false, .idle⟩, .none, none, fun _ => false⟩

/-- Nothing fails. -/
def plain : Choice := ⟨false, false, false, ⟨false, false⟩, ⟨false, false⟩, false, false⟩

/-- The writer is there and the reader blocks; then a head is committed and the post fails. -/
def failedPost : List (Action 1) :=
  .openWriter :: .leave :: .wait 0 true :: List.replicate 6 (.reader 0 plain) ++
    [.doneWriting 1, .post ⟨true, false⟩, .leave]

/-- The failed post is kept for replay. -/
theorem no_lost_wakeup_retained : ∃ s : State 1, (machine 1 8).Reachable s ∧
    (s.readers 0).pc = .blocked ∧ s.leading = 1 ∧ s.token 0 = false ∧ s.inside = none ∧
    s.Woken 0 := by
  obtain ⟨s, hs, hpc, hleading, hreading, htoken, hinside⟩ :
      ∃ s, (machine 1 8).Reachable s ∧ (s.readers 0).pc = .blocked ∧ s.leading = 1 ∧
        (s.readers 0).reading = 0 ∧ s.token 0 = false ∧ s.inside = none :=
    Machine.exists_reachable_of_exec (s := fresh) failedPost
      ⟨rfl, rfl, rfl, fun _ => ⟨rfl, rfl⟩⟩ (by decide +kernel)
  refine ⟨s, hs, hpc, hleading, htoken, hinside, (no_lost_wakeup hs).1 0 hpc (.inl ?_)⟩
  simp [hleading, hreading]

end Wakeups

end Sintra.Ring
