import Mathlib

/-!
# Counters and their holders

A shared counter is raised by whoever takes hold of something and lowered by whoever lets go. Its use
rests on one fact: the counter is at least the number of holders. `Covers c H` states it, for a counter
`c` and a set `H` of holders of any type.

* `Covers.rest`, `Covers.of_rest` — one holder apart from the others.
* `Covers.pos`, `Covers.card_le` — what the counter then says about the holders.
-/

variable {τ : Type*}

/-- The counter is at least the number of holders. -/
def Covers (c : ℕ) (H : Set τ) : Prop := H.encard ≤ c

open Classical in
/-- One if `x` is a holder. -/
noncomputable def holding (H : Set τ) (x : τ) : ℕ := if x ∈ H then 1 else 0

variable {H H' : Set τ} {c c' : ℕ} {x y : τ}

theorem holding_of_mem (h : x ∈ H) : holding H x = 1 := if_pos h

theorem holding_of_notMem (h : x ∉ H) : holding H x = 0 := if_neg h

/-- A holder apart from the others. -/
theorem encard_eq_add_holding (H : Set τ) (x : τ) :
    H.encard = (H \ {x}).encard + (holding H x : ℕ) := by
  by_cases hx : x ∈ H
  · rw [holding_of_mem hx, Nat.cast_one, Set.encard_sdiff_singleton_add_one hx]
  · rw [holding_of_notMem hx, Set.sdiff_singleton_eq_self hx]
    simp

theorem holding_diff_of_ne (h : y ≠ x) : holding (H \ {x}) y = holding H y := by
  have hiff : y ∈ H \ {x} ↔ y ∈ H := ⟨fun hy => hy.1, fun hy => ⟨hy, h⟩⟩
  by_cases hy : y ∈ H
  · rw [holding_of_mem hy, holding_of_mem (hiff.2 hy)]
  · rw [holding_of_notMem hy, holding_of_notMem fun hmem => hy (hiff.1 hmem)]

namespace Covers

/-- Holders that vanish do no harm. -/
theorem anti (h : Covers c H) (hsub : H' ⊆ H) : Covers c H' := (Set.encard_le_encard hsub).trans h

/-- Without holders any value will do. -/
theorem empty (hempty : ∀ x, x ∉ H) : Covers c H := by
  rw [Covers, Set.eq_empty_of_forall_notMem hempty, Set.encard_empty]
  exact zero_le

theorem pos (h : Covers c H) (hx : x ∈ H) : 0 < c := by
  have hone : (1 : ℕ∞) ≤ H.encard := Set.one_le_encard_iff_nonempty.2 ⟨x, hx⟩
  exact_mod_cast hone.trans h

theorem card_le (h : Covers c H) {S : Finset τ} (hS : ∀ x ∈ S, x ∈ H) : S.card ≤ c := by
  have hle : (S : Set τ).encard ≤ c := (Set.encard_le_encard hS).trans h
  exact_mod_cast hle

theorem rest (h : Covers c H) (x : τ) : holding H x ≤ c ∧ Covers (c - holding H x) (H \ {x}) := by
  rw [Covers, encard_eq_add_holding H x] at h
  constructor
  · exact_mod_cast le_trans le_add_self h
  · exact ENat.le_sub_of_add_le_right (ENat.natCast_ne_top _) h

theorem of_rest (h : Covers c (H \ {x})) (hle : c + holding H x ≤ c') : Covers c' H := by
  rw [Covers, encard_eq_add_holding H x]
  calc
    (H \ {x}).encard + (holding H x : ℕ) ≤ (c : ℕ∞) + (holding H x : ℕ) := by
      gcongr
      exact h
    _ ≤ c' := by exact_mod_cast hle

/-- A step that touches the counter and the holder `x` only. -/
theorem replace (h : Covers c H) (hrest : ∀ z, z ≠ x → z ∈ H' → z ∈ H)
    (hlocal : holding H' x + c ≤ holding H x + c') : Covers c' H' := by
  obtain ⟨hle, hapart⟩ := h.rest x
  have hsub : H' \ {x} ⊆ H \ {x} := by
    rintro z ⟨hz, hzx⟩
    exact ⟨hrest z hzx hz, hzx⟩
  exact of_rest (hapart.anti hsub) (by omega)

/-- A step that touches the counter and the two holders `x` and `y` only. -/
theorem exchange (h : Covers c H) (hxy : y ≠ x) (hrest : ∀ z, z ≠ x → z ≠ y → z ∈ H' → z ∈ H)
    (hlocal : holding H' x + holding H' y + c ≤ holding H x + holding H y + c') : Covers c' H' := by
  obtain ⟨hx, hapart⟩ := h.rest x
  obtain ⟨hy, hapart⟩ := hapart.rest y
  rw [holding_diff_of_ne hxy] at hy hapart
  have hsub : ( H' \ {x}) \ {y} ⊆ (H \ {x}) \ {y} := by
    rintro z ⟨⟨hz, hzx⟩, hzy⟩
    exact ⟨⟨hrest z hzx hzy hz, hzx⟩, hzy⟩
  have hback := of_rest (hapart.anti hsub) le_rfl
  rw [holding_diff_of_ne hxy] at hback
  exact of_rest hback (by omega)

end Covers
