import Sintra.Lib.Updates

/-!
# Gatherings: announced, owed, settled

Parties gather at keys and wait there for a common event. Each gathering has an id; whoever joins
it is *announced* under that id in a log, and when the event happens the parties that still wait are
*owed* a settlement, which is logged later. The book of all this is right (`Book.Ok`) if nobody is
settled, owed or waits under an id under which they were not announced before, and nobody is settled
twice under one id.

* `Ok.announce`, `Ok.withdraw`, `Ok.cancel`, `Ok.complete`, `Ok.settle`, `Ok.note` — the operations
  keep it.
* `Ok.announced_before`, `Ok.settled_once` — what it says about the log.
-/

set_option linter.unusedSectionVars false

namespace Gatherings

open Function Updates Option

variable {κ π ι : Type*}

/-- Parties that wait for a common event. -/
structure Gathering (π ι : Type*) where
  id : ι
  waiting : Finset π

/-- An entry of the log. -/
inductive Entry (π ι : Type*)
  | announced (p : π) (id : ι)
  | settled (p : π) (id : ι)
  /-- What is about no gathering. -/
  | other

/-- The gatherings under way, the settlements still to be logged, and the log. -/
structure Book (κ π ι : Type*) where
  inFlight : κ → Option (Gathering π ι)
  owed : Multiset (π × ι)
  log : List (Entry π ι)

namespace Book

/-- Nothing has happened. -/
def empty : Book κ π ι := ⟨fun _ => none, 0, []⟩

section operations

variable [DecidableEq κ] [DecidableEq π]

/-- Something else is logged. -/
def note (b : Book κ π ι) : Book κ π ι := { b with log := b.log ++ [.other] }

/-- `p` joins the gathering `g` at `k`, which may be new. -/
def announce (b : Book κ π ι) (k : κ) (g : Gathering π ι) (p : π) : Book κ π ι :=
  { b with
    inFlight := update b.inFlight k (some { g with waiting := insert p g.waiting })
    log := b.log ++ [.announced p g.id] }

/-- `p` no longer waits in the gathering `g` at `k`. -/
def withdraw (b : Book κ π ι) (k : κ) (g : Gathering π ι) (p : π) : Book κ π ι :=
  { b with inFlight := update b.inFlight k (some { g with waiting := g.waiting.erase p }) }

/-- Nobody waits at `k` any more. -/
def cancel (b : Book κ π ι) (k : κ) : Book κ π ι :=
  { b with inFlight := update b.inFlight k none }

/-- The event of `k` has happened: these parties are owed a settlement under this id. -/
def complete (b : Book κ π ι) (k : κ) (recipients : Finset π) (id : ι) : Book κ π ι :=
  { b with
    inFlight := update b.inFlight k none
    owed := b.owed + recipients.val.map fun p => (p, id) }

/-- A settlement is logged. -/
def settle [DecidableEq ι] (b : Book κ π ι) (x : π × ι) : Book κ π ι :=
  { b with owed := b.owed.erase x, log := b.log ++ [.settled x.1 x.2] }

end operations

/-- The id is that of a gathering under way, or somebody was announced under it. -/
def Mentions (b : Book κ π ι) (id : ι) : Prop :=
  (∃ k g, b.inFlight k = some g ∧ g.id = id) ∨ ∃ p, Entry.announced p id ∈ b.log

/-- The book is right. -/
structure Ok (b : Book κ π ι) : Prop where
  /-- Two gatherings under way have different ids. -/
  id_unique : ∀ k k' g g', b.inFlight k = some g → b.inFlight k' = some g' → g.id = g'.id → k = k'
  /-- Whoever waits was announced. -/
  waiting_announced : ∀ k g p, b.inFlight k = some g → p ∈ g.waiting →
    Entry.announced p g.id ∈ b.log
  /-- Nobody is owed anything under the id of a gathering under way. -/
  inFlight_not_owed : ∀ k g p, b.inFlight k = some g → (p, g.id) ∉ b.owed
  /-- Nor was anybody settled under it. -/
  inFlight_not_settled : ∀ k g p, b.inFlight k = some g → Entry.settled p g.id ∉ b.log
  owed_announced : ∀ p id, (p, id) ∈ b.owed → Entry.announced p id ∈ b.log
  owed_not_settled : ∀ p id, (p, id) ∈ b.owed → Entry.settled p id ∉ b.log
  owed_nodup : b.owed.Nodup
  announced_before : ∀ (i : ℕ) p id, b.log[i]? = some (.settled p id) →
    ∃ j < i, b.log[j]? = some (.announced p id)
  settled_once : ∀ (i j : ℕ) p id, b.log[i]? = some (.settled p id) →
    b.log[j]? = some (.settled p id) → i = j

theorem Ok.empty : (empty : Book κ π ι).Ok := by
  constructor <;> simp [Book.empty]

variable {b : Book κ π ι} {k : κ} {g : Gathering π ι} {p : π} {id : ι}

theorem Ok.announced_of_settled (h : b.Ok) (hp : Entry.settled p id ∈ b.log) :
    Entry.announced p id ∈ b.log := by
  obtain ⟨i, hi⟩ := List.mem_iff_getElem?.1 hp
  obtain ⟨j, -, hj⟩ := h.announced_before i p id hi
  exact List.mem_iff_getElem?.2 ⟨j, hj⟩

/-- Nothing is known under an id that is not mentioned. -/
theorem Ok.not_owed (h : b.Ok) (hid : ¬b.Mentions id) (p : π) : (p, id) ∉ b.owed :=
  fun hp => hid (.inr ⟨p, h.owed_announced p id hp⟩)

theorem Ok.not_settled (h : b.Ok) (hid : ¬b.Mentions id) (p : π) : Entry.settled p id ∉ b.log :=
  fun hp => hid (.inr ⟨p, h.announced_of_settled hp⟩)

/-! ### What an appended entry changes -/

theorem getElem?_append_singleton {α : Type*} {l : List α} {a x : α} {i : ℕ} :
    (l ++ [a])[i]? = some x ↔ l[i]? = some x ∨ i = l.length ∧ a = x := by
  rcases Nat.lt_trichotomy i l.length with hlt | rfl | hgt
  · simp [List.getElem?_append_left hlt, Nat.ne_of_lt hlt]
  · simp
  · simp [List.getElem?_eq_none (Nat.le_of_lt hgt),
      List.getElem?_eq_none (show (l ++ [a]).length ≤ i by simp; omega), Nat.ne_of_gt hgt]

/-- A new entry is a settlement of somebody who was announced, or none. -/
theorem Ok.announced_before_append (h : b.Ok) {e : Entry π ι}
    (he : ∀ p id, e = .settled p id → Entry.announced p id ∈ b.log) (i : ℕ) (p : π) (id : ι)
    (hi : (b.log ++ [e])[i]? = some (.settled p id)) :
    ∃ j < i, (b.log ++ [e])[j]? = some (.announced p id) := by
  obtain hi | ⟨rfl, hq⟩ := getElem?_append_singleton.1 hi
  · obtain ⟨j, hj, hjp⟩ := h.announced_before i p id hi
    exact ⟨j, hj, getElem?_append_singleton.2 (.inl hjp)⟩
  · obtain ⟨j, hj⟩ := List.mem_iff_getElem?.1 (he p id hq)
    exact ⟨j, (List.getElem?_eq_some_iff.1 hj).1, getElem?_append_singleton.2 (.inl hj)⟩

/-- A new entry is not a settlement of somebody who was settled. -/
theorem Ok.settled_once_append (h : b.Ok) {e : Entry π ι}
    (he : ∀ p id, e = .settled p id → Entry.settled p id ∉ b.log) (i j : ℕ) (p : π) (id : ι)
    (hi : (b.log ++ [e])[i]? = some (.settled p id)) (hj : (b.log ++ [e])[j]? = some (.settled p id)) :
    i = j := by
  have hold : ∀ i : ℕ, b.log[i]? = some (.settled p id) → e ≠ .settled p id := fun i hi heq =>
    he p id heq (List.mem_iff_getElem?.2 ⟨i, hi⟩)
  obtain hi | ⟨rfl, heq⟩ := getElem?_append_singleton.1 hi
  · obtain hj | ⟨-, heq⟩ := getElem?_append_singleton.1 hj
    · exact h.settled_once i j p id hi hj
    · exact absurd heq (hold i hi)
  · obtain hj | ⟨rfl, -⟩ := getElem?_append_singleton.1 hj
    · exact absurd heq (hold j hj)
    · rfl

/-! ### The operations -/

section operations

variable [DecidableEq κ] [DecidableEq π]

variable {o : Option (Gathering π ι)}

/-- Fewer parties wait, or fewer gatherings are under way. -/
theorem Ok.shrink (h : b.Ok) (ho : ∀ g', o = some g' →
      ∃ g, b.inFlight k = some g ∧ g'.id = g.id ∧ g'.waiting ⊆ g.waiting) :
    ({ b with inFlight := update b.inFlight k o } : Book κ π ι).Ok := by
  have hflight : ∀ k' g', update b.inFlight k o k' = some g' →
      ∃ g, b.inFlight k' = some g ∧ g'.id = g.id ∧ g'.waiting ⊆ g.waiting := by
    intro k' g' hk'
    obtain ⟨rfl, hg'⟩ | ⟨-, hg'⟩ := update_cases hk'
    · exact ho g' hg'
    · exact ⟨g', hg', rfl, subset_rfl⟩
  constructor
  case id_unique =>
    intro k₁ k₂ g₁ g₂ h₁ h₂ heq
    obtain ⟨g₁', h₁', hid₁, -⟩ := hflight k₁ g₁ h₁
    obtain ⟨g₂', h₂', hid₂, -⟩ := hflight k₂ g₂ h₂
    exact h.id_unique k₁ k₂ g₁' g₂' h₁' h₂' (by rw [← hid₁, ← hid₂, heq])
  case waiting_announced =>
    intro k' g' p hk' hp
    obtain ⟨g, hg, hid, hsub⟩ := hflight k' g' hk'
    rw [hid]
    exact h.waiting_announced k' g p hg (hsub hp)
  case inFlight_not_owed =>
    intro k' g' p hk'
    obtain ⟨g, hg, hid, -⟩ := hflight k' g' hk'
    rw [hid]
    exact h.inFlight_not_owed k' g p hg
  case inFlight_not_settled =>
    intro k' g' p hk'
    obtain ⟨g, hg, hid, -⟩ := hflight k' g' hk'
    rw [hid]
    exact h.inFlight_not_settled k' g p hg
  all_goals first
    | exact h.owed_announced
    | exact h.owed_not_settled
    | exact h.owed_nodup
    | exact h.announced_before
    | exact h.settled_once

theorem Ok.withdraw (h : b.Ok) (hg : b.inFlight k = some g) (p : π) : (b.withdraw k g p).Ok := by
  refine h.shrink fun g' hg' => ?_
  obtain rfl := some.inj hg'
  exact ⟨g, hg, rfl, Finset.erase_subset _ _⟩

theorem Ok.cancel (h : b.Ok) (k : κ) : (b.cancel k).Ok := h.shrink nofun

/-- The gathering is under way, or its id is new. -/
def Joins (b : Book κ π ι) (k : κ) (g : Gathering π ι) : Prop :=
  b.inFlight k = some g ∨ g.waiting = ∅ ∧ ¬b.Mentions g.id

theorem Joins.other (hj : b.Joins k g) (h : b.Ok) {k' : κ} {g' : Gathering π ι}
    (hk' : b.inFlight k' = some g') (hne : k' ≠ k) : g'.id ≠ g.id := by
  intro hid
  obtain hg | ⟨-, hnew⟩ := hj
  · exact hne (h.id_unique k' k g' g hk' hg hid)
  · exact hnew (.inl ⟨k', g', hk', hid⟩)

theorem Ok.announce (h : b.Ok) (hj : b.Joins k g) (p : π) : (b.announce k g p).Ok := by
  have howed : ∀ q, (q, g.id) ∉ b.owed := by
    obtain hg | ⟨-, hnew⟩ := hj
    · exact fun q => h.inFlight_not_owed k g q hg
    · exact h.not_owed hnew
  have hsettled : ∀ q, Entry.settled q g.id ∉ b.log := by
    obtain hg | ⟨-, hnew⟩ := hj
    · exact fun q => h.inFlight_not_settled k g q hg
    · exact h.not_settled hnew
  have hwaiting : ∀ q ∈ g.waiting, Entry.announced q g.id ∈ b.log := by
    obtain hg | ⟨hempty, -⟩ := hj
    · exact fun q hq => h.waiting_announced k g q hg hq
    · simp [hempty]
  -- the gathering at `k` has the id of `g`, every other one is as before
  have hflight : ∀ k' g', (b.announce k g p).inFlight k' = some g' →
      (k' = k ∧ g'.id = g.id ∧ g'.waiting = insert p g.waiting) ∨
        (k' ≠ k ∧ b.inFlight k' = some g') := by
    intro k' g' hk'
    obtain ⟨rfl, hg'⟩ | hother := update_cases hk'
    · obtain rfl := some.inj hg'
      exact .inl ⟨rfl, rfl, rfl⟩
    · exact .inr hother
  constructor
  case id_unique =>
    intro k₁ k₂ g₁ g₂ h₁ h₂ heq
    obtain ⟨rfl, hid₁, -⟩ | ⟨hne₁, hold₁⟩ := hflight k₁ g₁ h₁
    · obtain ⟨rfl, -, -⟩ | ⟨hne₂, hold₂⟩ := hflight k₂ g₂ h₂
      · rfl
      · exact absurd (heq.symm.trans hid₁) (hj.other h hold₂ hne₂)
    · obtain ⟨rfl, hid₂, -⟩ | ⟨-, hold₂⟩ := hflight k₂ g₂ h₂
      · exact absurd (heq.trans hid₂) (hj.other h hold₁ hne₁)
      · exact h.id_unique k₁ k₂ g₁ g₂ hold₁ hold₂ heq
  case waiting_announced =>
    intro k' g' q hk' hq
    obtain ⟨rfl, hid, hw⟩ | ⟨-, hk'⟩ := hflight k' g' hk'
    · rw [hw, Finset.mem_insert] at hq
      rw [hid]
      obtain rfl | hq := hq
      · exact List.mem_append_right _ (List.mem_singleton_self _)
      · exact List.mem_append_left _ (hwaiting q hq)
    · exact List.mem_append_left _ (h.waiting_announced k' g' q hk' hq)
  case inFlight_not_owed =>
    intro k' g' q hk'
    obtain ⟨rfl, hid, -⟩ | ⟨-, hk'⟩ := hflight k' g' hk'
    · rw [hid]
      exact howed q
    · exact h.inFlight_not_owed k' g' q hk'
  case inFlight_not_settled =>
    intro k' g' q hk' hq
    have hlog : Entry.settled q g'.id ∈ b.log := (List.mem_append.1 hq).resolve_right (by simp)
    obtain ⟨rfl, hid, -⟩ | ⟨-, hold⟩ := hflight k' g' hk'
    · rw [hid] at hlog
      exact hsettled q hlog
    · exact h.inFlight_not_settled k' g' q hold hlog
  case owed_announced => exact fun q id hq => List.mem_append_left _ (h.owed_announced q id hq)
  case owed_not_settled =>
    intro q id hq hlog
    exact h.owed_not_settled q id hq ((List.mem_append.1 hlog).resolve_right (by simp))
  case owed_nodup => exact h.owed_nodup
  case announced_before => exact h.announced_before_append nofun
  case settled_once => exact h.settled_once_append nofun

/-- Only parties that wait are owed something. -/
theorem Ok.complete (h : b.Ok) (hg : b.inFlight k = some g) {recipients : Finset π}
    (hsub : recipients ⊆ g.waiting) : (b.complete k recipients g.id).Ok := by
  have hcancel := h.cancel k
  have hnew : ∀ q id, (q, id) ∈ recipients.val.map (fun p => (p, g.id)) →
      id = g.id ∧ q ∈ g.waiting := by
    intro q id hq
    obtain ⟨p, hp, heq⟩ := Multiset.mem_map.1 hq
    obtain ⟨rfl, rfl⟩ := Prod.mk.inj heq
    exact ⟨rfl, hsub hp⟩
  constructor
  case inFlight_not_owed =>
    intro k' g' q hk' hq
    obtain hq | hq := Multiset.mem_add.1 hq
    · exact hcancel.inFlight_not_owed k' g' q hk' hq
    · obtain ⟨hid, -⟩ := hnew q g'.id hq
      obtain ⟨-, hnone⟩ | ⟨hne, hold⟩ := update_cases hk'
      · cases hnone
      · exact hne (h.id_unique k' k g' g hold hg hid)
  case owed_announced =>
    intro q id hq
    obtain hq | hq := Multiset.mem_add.1 hq
    · exact h.owed_announced q id hq
    · obtain ⟨rfl, hwaits⟩ := hnew q id hq
      exact h.waiting_announced k g q hg hwaits
  case owed_not_settled =>
    intro q id hq
    obtain hq | hq := Multiset.mem_add.1 hq
    · exact h.owed_not_settled q id hq
    · obtain ⟨rfl, -⟩ := hnew q id hq
      exact h.inFlight_not_settled k g q hg
  case owed_nodup =>
    refine Multiset.nodup_add.2 ⟨h.owed_nodup, ?_, ?_⟩
    · exact recipients.nodup.map fun p q heq => (Prod.mk.inj heq).1
    · refine Multiset.disjoint_left.2 fun {x} hx hx' => ?_
      obtain ⟨q, id⟩ := x
      obtain ⟨rfl, -⟩ := hnew q id hx'
      exact h.inFlight_not_owed k g q hg hx
  all_goals first
    | exact hcancel.id_unique
    | exact hcancel.waiting_announced
    | exact hcancel.inFlight_not_settled
    | exact h.announced_before
    | exact h.settled_once

theorem Ok.settle [DecidableEq ι] (h : b.Ok) {x : π × ι} (hx : x ∈ b.owed) : (b.settle x).Ok := by
  obtain ⟨p, id⟩ := x
  have hmem : ∀ y, y ∈ b.owed.erase (p, id) → y ∈ b.owed ∧ y ≠ (p, id) := fun y hy =>
    ⟨Multiset.mem_of_mem_erase hy, (h.owed_nodup.mem_erase_iff.1 hy).1⟩
  have hlog : ∀ q id', Entry.settled q id' ∈ b.log ++ [.settled p id] →
      Entry.settled q id' ∈ b.log ∨ q = p ∧ id' = id := by
    intro q id' hq
    simpa using hq
  constructor
  case id_unique => exact h.id_unique
  case waiting_announced =>
    exact fun k g q hk hq => List.mem_append_left _ (h.waiting_announced k g q hk hq)
  case inFlight_not_owed => exact fun k g q hk hq => h.inFlight_not_owed k g q hk (hmem _ hq).1
  case inFlight_not_settled =>
    intro k g q hk hq
    obtain hq | ⟨rfl, hid⟩ := hlog q g.id hq
    · exact h.inFlight_not_settled k g q hk hq
    · rw [← hid] at hx
      exact h.inFlight_not_owed k g q hk hx
  case owed_announced =>
    exact fun q id' hq => List.mem_append_left _ (h.owed_announced q id' (hmem _ hq).1)
  case owed_not_settled =>
    intro q id' hq hq'
    obtain hq' | ⟨rfl, rfl⟩ := hlog q id' hq'
    · exact h.owed_not_settled q id' (hmem _ hq).1 hq'
    · exact (hmem _ hq).2 rfl
  case owed_nodup => exact h.owed_nodup.erase _
  case announced_before =>
    refine h.announced_before_append ?_
    rintro _ _ ⟨⟩
    exact h.owed_announced p id hx
  case settled_once =>
    refine h.settled_once_append ?_
    rintro _ _ ⟨⟩
    exact h.owed_not_settled p id hx

theorem Ok.note (h : b.Ok) : b.note.Ok := by
  have hlog : ∀ e : Entry π ι, e ∈ b.log → e ∈ b.log ++ [.other] :=
    fun e he => List.mem_append_left _ he
  have hsettled : ∀ q id, Entry.settled q id ∈ b.log ++ [.other] → Entry.settled q id ∈ b.log :=
    fun q id hq => (List.mem_append.1 hq).resolve_right (by simp)
  constructor
  case id_unique => exact h.id_unique
  case waiting_announced => exact fun k g q hk hq => hlog _ (h.waiting_announced k g q hk hq)
  case inFlight_not_owed => exact h.inFlight_not_owed
  case inFlight_not_settled =>
    exact fun k g q hk hq => h.inFlight_not_settled k g q hk (hsettled _ _ hq)
  case owed_announced => exact fun q id hq => hlog _ (h.owed_announced q id hq)
  case owed_not_settled => exact fun q id hq hq' => h.owed_not_settled q id hq (hsettled _ _ hq')
  case owed_nodup => exact h.owed_nodup
  case announced_before => exact h.announced_before_append nofun
  case settled_once => exact h.settled_once_append nofun

/-! ### Ids in use -/

theorem Mentions.of_announce (h : (b.announce k g p).Mentions id) : b.Mentions id ∨ id = g.id := by
  obtain ⟨k', g', hk', rfl⟩ | ⟨q, hq⟩ := h
  · obtain ⟨-, hg'⟩ | ⟨-, hold⟩ := update_cases hk'
    · obtain rfl := some.inj hg'
      exact .inr rfl
    · exact .inl (.inl ⟨k', g', hold, rfl⟩)
  · obtain hq | hq := List.mem_append.1 hq
    · exact .inl (.inr ⟨q, hq⟩)
    · exact .inr (Entry.announced.inj (List.mem_singleton.1 hq)).2

/-- Fewer gatherings are under way. -/
theorem Mentions.of_shrink (ho : ∀ g', o = some g' → ∃ g, b.inFlight k = some g ∧ g.id = g'.id)
    (h : ({ b with inFlight := update b.inFlight k o } : Book κ π ι).Mentions id) : b.Mentions id := by
  obtain ⟨k', g', hk', rfl⟩ | hq := h
  · obtain ⟨rfl, hg'⟩ | ⟨-, hold⟩ := update_cases hk'
    · obtain ⟨g, hg, hid⟩ := ho g' hg'
      exact .inl ⟨k', g, hg, hid⟩
    · exact .inl ⟨k', g', hold, rfl⟩
  · exact .inr hq

theorem Mentions.of_withdraw (hg : b.inFlight k = some g) (h : (b.withdraw k g p).Mentions id) :
    b.Mentions id := by
  refine of_shrink ?_ h
  rintro _ ⟨⟩
  exact ⟨g, hg, rfl⟩

theorem Mentions.of_cancel (h : (b.cancel k).Mentions id) : b.Mentions id :=
  of_shrink (o := none) nofun h

theorem Mentions.of_note (h : b.note.Mentions id) : b.Mentions id := by
  obtain hk | ⟨q, hq⟩ := h
  · exact .inl hk
  · exact .inr ⟨q, (List.mem_append.1 hq).resolve_right (by simp)⟩

theorem Mentions.of_settle [DecidableEq ι] {x : π × ι} (h : (b.settle x).Mentions id) :
    b.Mentions id := by
  obtain hk | ⟨q, hq⟩ := h
  · exact .inl hk
  · exact .inr ⟨q, (List.mem_append.1 hq).resolve_right (by simp)⟩

end operations

end Book

end Gatherings
