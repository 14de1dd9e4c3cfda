import Mathlib

/-!
# Updates
-/

namespace Updates

open Function

section

variable {α β : Type*} [DecidableEq α] {f : α → β} {a x : α} {b b' y : β}

/-- What is read after an update is new, or was there under another argument. -/
theorem update_cases (h : update f a b x = y) : x = a ∧ b = y ∨ x ≠ a ∧ f x = y := by
  obtain rfl | hx := eq_or_ne x a
  · rw [update_self] at h
    exact .inl ⟨rfl, h⟩
  · rw [update_of_ne hx] at h
    exact .inr ⟨hx, h⟩

/-- What holds everywhere holds after an update that keeps it. -/
theorem forall_update (P : α → β → Prop) (hf : f a = b) (hb : P a b → P a b') (h : ∀ x, P x (f x)) :
    ∀ x, P x (update f a b' x) :=
  (Function.forall_update_iff f P).2 ⟨hb (hf ▸ h a), fun x _ => h x⟩

/-- A part of the values that an update keeps is everywhere as it was. -/
theorem proj_update {γ : Type*} (g : β → γ) (h : g b = g (f a)) (x : α) :
    g (update f a b x) = g (f x) := by
  obtain rfl | hx := eq_or_ne x a
  · rw [update_self, h]
  · rw [update_of_ne hx]

/-- Two functions that are related everywhere still are after an update of both. -/
theorem update_rel {γ : Type*} {R : β → γ → Prop} {g : α → γ} {c : γ} (h : ∀ x, R (f x) (g x))
    (hbc : R b c) (x : α) : R (update f a b x) (update g a c x) := by
  obtain rfl | hx := eq_or_ne x a
  · rwa [update_self, update_self]
  · rw [update_of_ne hx, update_of_ne hx]
    exact h x

/-- An association list as a function, after an insertion. -/
theorem lookup_insert_eq (l : AList fun _ : α => β) (a x : α) (b : β) :
    (l.insert a b).lookup x = update l.lookup a (some b) x := by
  obtain rfl | hx := eq_or_ne x a
  · rw [AList.lookup_insert, update_self]
  · rw [AList.lookup_insert_ne hx, update_of_ne hx]

/-- An association list as a function, after an erasure. -/
theorem lookup_erase_eq (l : AList fun _ : α => β) (a x : α) :
    (l.erase a).lookup x = update l.lookup a none x := by
  obtain rfl | hx := eq_or_ne x a
  · rw [AList.lookup_erase, update_self]
  · rw [AList.lookup_erase_ne hx, update_of_ne hx]

end

section

variable {ι ρ κ : Type*} [DecidableEq ι] [DecidableEq κ]

/-- Items that are put into one of several lists, and erased from it once: `place` says what an item
was put there with, and `key` in which list. -/
structure Placed (place : ι → Option ρ) (key : ρ → κ) (lists : κ → List ι) (removals : ι → ℕ) :
    Prop where
  fresh : ∀ x, place x = none → removals x = 0 ∧ ∀ k, x ∉ lists k
  here : ∀ x r, place x = some r → (lists (key r)).count x + removals x = 1
  elsewhere : ∀ x r k, place x = some r → x ∈ lists k → k = key r

variable {place : ι → Option ρ} {key : ρ → κ} {lists lists' : κ → List ι} {removals : ι → ℕ} {x : ι}
  {r : ρ}

theorem Placed.add (h : Placed place key lists removals) (hx : place x = none)
    (hlists : ∀ k, lists' k = if k = key r then lists k ++ [x] else lists k) :
    Placed (update place x (some r)) key lists' removals := by
  obtain ⟨hzero, hnone⟩ := h.fresh x hx
  have hcount : ∀ {y k}, y ≠ x → (lists' k).count y = (lists k).count y := by
    intro y k hne
    rw [hlists]
    split_ifs
    · rw [List.count_append, List.count_singleton, if_neg (by simpa using Ne.symm hne), Nat.add_zero]
    · rfl
  have hmem : ∀ {y k}, y ≠ x → y ∈ lists' k → y ∈ lists k := by
    intro y k hne hin
    rw [← List.count_pos_iff] at hin ⊢
    rwa [hcount hne] at hin
  refine ⟨fun y hy => ?_, fun y r' hy => ?_, fun y r' k hy hin => ?_⟩
  · obtain ⟨-, ⟨⟩⟩ | ⟨hne, hy⟩ := update_cases hy
    obtain ⟨hremovals, hno⟩ := h.fresh y hy
    exact ⟨hremovals, fun k hin => hno k (hmem hne hin)⟩
  · obtain ⟨rfl, ⟨⟩⟩ | ⟨hne, hy⟩ := update_cases hy
    · rw [hlists, if_pos rfl, List.count_append, List.count_eq_zero_of_not_mem (hnone _), hzero]
      simp
    · rw [hcount hne]
      exact h.here y r' hy
  · obtain ⟨rfl, ⟨⟩⟩ | ⟨hne, hy⟩ := update_cases hy
    · by_contra hk
      rw [hlists, if_neg hk] at hin
      exact hnone k hin
    · exact h.elsewhere y r' k hy (hmem hne hin)

theorem Placed.erase (h : Placed place key lists removals) (hx : place x = some r)
    (hzero : removals x = 0)
    (hlists : ∀ k, lists' k = if k = key r then (lists k).erase x else lists k) :
    Placed place key lists' (update removals x (removals x + 1)) := by
  have hmem : ∀ {y k}, y ∈ lists' k → y ∈ lists k := by
    intro y k hin
    rw [hlists] at hin
    split_ifs at hin
    · exact List.mem_of_mem_erase hin
    · exact hin
  refine ⟨fun y hy => ?_, fun y r' hy => ?_, fun y r' k hy hin => h.elsewhere y r' k hy (hmem hin)⟩
  · have hne : y ≠ x := by
      rintro rfl
      cases hx.symm.trans hy
    obtain ⟨hremovals, hno⟩ := h.fresh y hy
    exact ⟨(update_of_ne hne ..).trans hremovals, fun k hin => hno k (hmem hin)⟩
  · have hold := h.here y r' hy
    rw [hlists]
    obtain rfl | hne := eq_or_ne y x
    · obtain rfl := Option.mem_unique hx hy
      rw [if_pos rfl, List.count_erase_self, update_self]
      omega
    · rw [update_of_ne hne]
      split_ifs
      · rw [List.count_erase_of_ne hne]
        exact hold
      · exact hold

end

end Updates
