import Sintra.Process.BarrierInvariant

/-!
# What barriers guarantee
-/

namespace Sintra.Process.Barriers

open State Machine

variable {s : State}

/-- **Barrier safety.** A completion, sent or about to be written, belongs to a round in which every
captured process has called `barrier` or was dropped. -/
theorem completion_only_after_captured (hs : machine.Reachable s) {m : Message} {f : InstanceId}
    (hm : m ∈ s.messages) (hf : m.round = some f) :
    ∃ r, s.rounds f = some r ∧ r.captured ⊆ r.called ∪ r.dropped := by
  have hinv := reachable_inv hs
  have hmem : m ∈ s.completionsOf f := Multiset.mem_filter.mpr ⟨hm, hf⟩
  cases hr : s.rounds f with
  | none =>
    rw [(hinv.fresh f hr).1] at hmem
    exact absurd hmem (Multiset.notMem_zero m)
  | some r =>
    have hround := hinv.round f r hr
    refine ⟨r, rfl, hround.complete_captured (hround.sent_complete fun h0 => ?_)⟩
    rw [h0] at hmem
    exact Multiset.notMem_zero m hmem

/-- Two members: the first waits, the second arrives last. -/
def pairRun : List Action :=
  [.setMembers {1, 2}, .barrier 1 "phase" 0, .barrier 2 "phase" 0]

/-- The completion of the waiting process after the second one arrived. -/
theorem completion_only_after_captured_pair : ∃ s, machine.Reachable s ∧
    Message.completion 1 2 2 ∈ s.messages ∧
    ∃ r, s.rounds 2 = some r ∧ r.captured ⊆ r.called ∪ r.dropped := by
  obtain ⟨s, hs, hm⟩ : ∃ s, machine.Reachable s ∧ Message.completion 1 2 2 ∈ s.messages :=
    exists_reachable_of_exec pairRun rfl (by decide +kernel)
  exact ⟨s, hs, hm, completion_only_after_captured hs hm rfl⟩

/-! ### One reply for each arrival -/

/-- The process a message is sent to. -/
def Message.recipient : Message → InstanceId
  | .deferral p _ _ | .completion p _ _ | .exception p _ _ => p

/-- The completions of the round `f` to the process `p`, sent or still to be written. -/
def State.completionsTo (s : State) (f p : InstanceId) : Multiset Message :=
  (s.completionsOf f).filter fun m => m.recipient = p

/-- The one completion a process should get in a complete round, if it arrived in it. -/
def Round.replyTo (r : Round) (f p : InstanceId) : Multiset Message :=
  if p ∈ r.deferred then {.completion p f f}
  else match r.last with
    | some (q, c) => if p = q then {.completion q c f} else 0
    | none => 0

theorem filter_completions_recipient (recipients : Finset InstanceId) (f p : InstanceId) :
    (completions recipients f).filter (fun m => m.recipient = p) =
      if p ∈ recipients then {.completion p f f} else 0 := by
  have hmap : (completions recipients f).filter (fun m => m.recipient = p) =
      (recipients.val.filter fun q => q = p).map fun q => .completion q f f := by
    rw [completions, Multiset.filter_map]
    rfl
  rw [hmap, Multiset.filter_eq', Multiset.count_eq_of_nodup recipients.nodup]
  split_ifs with h1 h2 h2
  · rfl
  · exact absurd h1 h2
  · exact absurd h2 h1
  · rfl

/-- The replies of a complete round to one process. -/
theorem filter_expected_recipient {r : Round} (hcomplete : r.complete = true)
    (hlast : ∀ x, r.last = some x → x.1 ∉ r.deferred) (f p : InstanceId) :
    (r.expected f).filter (fun m => m.recipient = p) = r.replyTo f p := by
  rw [Round.expected, if_pos hcomplete, Multiset.filter_add, filter_completions_recipient,
    Round.replyTo]
  cases hl : r.last with
  | none => simp
  | some x =>
    obtain ⟨q, c⟩ := x
    have hq : q ∉ r.deferred := hlast (q, c) hl
    have hfilter : Multiset.filter (fun m => m.recipient = p) {Message.completion q c f} =
        if q = p then {.completion q c f} else 0 := Multiset.filter_singleton _
    simp only [hfilter]
    by_cases hp : p ∈ r.deferred
    · have hne : q ≠ p := fun h => hq (h ▸ hp)
      simp [hp, hne]
    · by_cases hpq : p = q
      · simp [hpq, hq]
      · simp [hp, hpq, Ne.symm hpq]

/-- A handler that has something left to write can take a step. -/
theorem exists_step_of_outstanding {h : Handler} (hh : h ∈ s.handlers) (hne : h.outstanding ≠ 0) :
    (∃ s', machine.step s (.closeRound h) = some s') ∨
      ∃ m s', machine.step s (.write h m) = some s' := by
  change (∃ s', s.closeRound h = some s') ∨ ∃ m s', s.write h m = some s'
  cases hc : h.closing with
  | some x =>
    simp [closeRound, hc, hh]
  | none =>
    right
    by_cases hq : h.queue = 0
    · cases hr : h.reply with
      | none => simp [Handler.outstanding, hq, hr] at hne
      | some m => exact ⟨m, by simp [write, hh, hc, hq, hr]⟩
    · obtain ⟨m, hm⟩ := Multiset.exists_mem_of_ne_zero hq
      exact ⟨m, by simp [write, hh, hc, hm]⟩

/-- When all handlers are done, everything has been sent. -/
theorem messages_eq_sent (h : ∀ h ∈ s.handlers, h.outstanding = 0) :
    s.messages = (s.sent : Multiset Message) := by
  have h0 : s.handlers.bind Handler.outstanding = 0 := by
    rw [Multiset.bind_congr h]
    exact Multiset.bind_zero _
  rw [messages, h0, add_zero]

/-- **One reply for each arrival.** In a round from which no process is dropped after it arrived:

* those who arrived are those who were sent a deferral with the round's common id, and the last
  arriver;
* before it is complete, no completion of it is sent or about to be written;
* once it is complete, the completions to each process are: one with the common id for a deferred
  process, one with the id of its own call for the last arriver, none for anybody else;
* whatever is still to be written can be, and when no handler has anything left, all of it has been
  sent. -/
theorem barrier_replies_once (hs : machine.Reachable s) {f : InstanceId} {r : Round}
    (hr : s.rounds f = some r) (hdrop : r.arrivedDropped = false) :
    (r.called = r.deferred ∪ (r.last.map Prod.fst).toFinset ∧
      ∀ p, p ∈ r.deferred ↔ ∃ c, Message.deferral p c f ∈ s.messages) ∧
    (r.complete = false → s.completionsOf f = 0) ∧
    (r.complete = true → ∀ p, s.completionsTo f p = r.replyTo f p) ∧
    (∀ h ∈ s.handlers, h.outstanding ≠ 0 →
      (∃ s', machine.step s (.closeRound h) = some s') ∨
        ∃ m s', machine.step s (.write h m) = some s') ∧
    ((∀ h ∈ s.handlers, h.outstanding = 0) → s.messages = (s.sent : Multiset Message)) := by
  have hround := (reachable_inv hs).round f r hr
  have heq := hround.completions_eq hdrop
  refine ⟨⟨hround.called_eq, hround.deferred_iff⟩, fun hopen => ?_, fun hcomplete p => ?_,
    fun h hh hne => exists_step_of_outstanding hh hne, messages_eq_sent⟩
  · rw [heq, Round.expected, hopen]
    rfl
  · rw [completionsTo, heq]
    exact filter_expected_recipient hcomplete hround.last_deferred f p

/-- The last arriver of `pairRun` after its locked section, and after it closed the round. -/
def pairHandler (closing : Option (String × ℕ × InstanceId)) (queue : Multiset Message) : Handler :=
  { closing := closing, queue := queue, reply := some (.completion 2 3 2) }

/-- `pairRun` with everything written. -/
def pairRunWritten : List Action :=
  pairRun ++
    [.closeRound (pairHandler (some ("phase", 0, 2)) {.completion 1 2 2}),
      .write (pairHandler none {.completion 1 2 2}) (.completion 1 2 2),
      .write (pairHandler none 0) (.completion 2 3 2)]

/-- The round is complete, everything has been sent, and the last arriver got no completion with the
common id: its reply carries the id of its own call. -/
theorem last_arriver_own_id : ∃ s, machine.Reachable s ∧
    (s.rounds 2).map (fun r => (r.complete, r.last, r.arrivedDropped)) =
      some (true, some (2, 3), false) ∧
    (∀ h ∈ s.handlers, h.outstanding = 0) ∧ s.sent.count (.completion 2 2 2) = 0 ∧
    s.sent.count (.completion 2 3 2) = 1 :=
  exists_reachable_of_exec pairRunWritten rfl (by decide +kernel)

/-- The completed round of `pairRun`: one completion for the process that waited. -/
theorem barrier_replies_once_pair : ∃ s r, machine.Reachable s ∧ s.rounds 2 = some r ∧
    s.completionsTo 2 1 = {.completion 1 2 2} := by
  obtain ⟨s, hs, hr⟩ : ∃ s, machine.Reachable s ∧ (s.rounds 2).map
      (fun r => (r.complete, r.arrivedDropped, decide (1 ∈ r.deferred))) = some (true, false, true) :=
    exists_reachable_of_exec pairRun rfl (by decide +kernel)
  obtain ⟨r, hrr, heq⟩ := Option.map_eq_some_iff.mp hr
  simp only [Prod.mk.injEq, decide_eq_true_eq] at heq
  refine ⟨s, r, hs, hrr, ?_⟩
  rw [(barrier_replies_once hs hrr heq.2.1).2.2.1 heq.1 1, Round.replyTo, if_pos heq.2.2]

end Sintra.Process.Barriers
