import Mathlib

/-!
# Debts spread over parties

Finitely many of the parties owe something, each a list of items. `Owed owed items` states that
`items` is what all of them owe together, in some order.

* `Owed.mem_iff`, `Owed.unique` — each item has a debtor, and only one if no item occurs twice.
-/

variable {τ α : Type*}

/-- The parties owe these items, all together. -/
def Owed (owed : τ → List α) (items : List α) : Prop :=
  ∃ parties : List τ, parties.Nodup ∧ (∀ x, x ∉ parties → owed x = []) ∧
    items.Perm (parties.flatMap owed)

variable {owed : τ → List α} {items items' : List α} {x : τ}

namespace Owed

/-- A debtor apart from the others. -/
theorem exists_rest (h : Owed owed items) (x : τ) :
    ∃ parties : List τ, parties.Nodup ∧ x ∉ parties ∧ (∀ y, y ≠ x → y ∉ parties → owed y = []) ∧
      items.Perm (owed x ++ parties.flatMap owed) := by
  obtain ⟨parties, hnodup, hnone, hperm⟩ := h
  by_cases hx : x ∈ parties
  · obtain ⟨l, r, rfl⟩ := List.append_of_mem hx
    have hxl : x ∉ l ++ r := (List.nodup_middle.1 hnodup).notMem
    refine ⟨l ++ r, (List.nodup_middle.1 hnodup).of_cons, hxl, fun y hy hmem => hnone y ?_, ?_⟩
    · simpa [hy] using hmem
    · refine hperm.trans (((List.perm_middle).flatMap_right owed).trans ?_)
      rw [List.flatMap_cons]
  · refine ⟨parties, hnodup, hx, fun y _ hmem => hnone y hmem, ?_⟩
    rw [hnone x hx, List.nil_append]
    exact hperm

variable {new : List α}

/-- One party owes something else. -/
theorem update [DecidableEq τ] (h : Owed owed items)
    (hitems : (items' ++ owed x).Perm (items ++ new)) :
    Owed (Function.update owed x new) items' := by
  obtain ⟨parties, hnodup, hx, hnone, hperm⟩ := h.exists_rest x
  have hrest : parties.flatMap (Function.update owed x new) = parties.flatMap owed := by
    refine List.flatMap_congr fun y hy => Function.update_of_ne ?_ _ _
    rintro rfl
    exact hx hy
  refine ⟨x :: parties, List.nodup_cons.2 ⟨hx, hnodup⟩, fun y hy => ?_, ?_⟩
  · rw [List.mem_cons, not_or] at hy
    rw [Function.update_of_ne hy.1]
    exact hnone y hy.1 hy.2
  · rw [List.flatMap_cons, Function.update_self, hrest]
    refine (List.perm_append_right_iff (owed x)).1 (hitems.trans ?_)
    calc
      (items ++ new).Perm (owed x ++ parties.flatMap owed ++ new) := hperm.append_right new
      _ = owed x ++ (parties.flatMap owed ++ new) := List.append_assoc _ _ _
      List.Perm _ (parties.flatMap owed ++ new ++ owed x) := List.perm_append_comm
      List.Perm _ (new ++ parties.flatMap owed ++ owed x) := List.perm_append_comm.append_right _

/-- What one party owes stays as it is. -/
theorem update_same [DecidableEq τ] (h : Owed owed items) (hnew : new = owed x) :
    Owed (Function.update owed x new) items := by
  rw [hnew, Function.update_eq_self]
  exact h

/-- A party without debts takes on new items. -/
theorem incur [DecidableEq τ] (h : Owed owed items) (hx : owed x = []) (new : List α) :
    Owed (Function.update owed x new) (items ++ new) :=
  h.update (by rw [hx, List.append_nil])

/-- A party is done with the first of its items. -/
theorem settle [DecidableEq τ] (h : Owed owed items) {a : α} (hx : owed x = a :: new) :
    ∃ items', items.Perm (a :: items') ∧ Owed (Function.update owed x new) items' := by
  obtain ⟨parties, -, -, -, hperm⟩ := h.exists_rest x
  rw [hx, List.cons_append] at hperm
  refine ⟨new ++ parties.flatMap owed, hperm, h.update ?_⟩
  rw [hx]
  calc
    (new ++ parties.flatMap owed ++ a :: new).Perm
        (a :: (new ++ parties.flatMap owed ++ new)) := List.perm_middle
    List.Perm _ (items ++ new) := (hperm.symm.append_right new)

theorem mem_iff (h : Owed owed items) {a : α} : a ∈ items ↔ ∃ x, a ∈ owed x := by
  obtain ⟨parties, -, hnone, hperm⟩ := h
  rw [hperm.mem_iff, List.mem_flatMap]
  refine ⟨fun ⟨x, _, hx⟩ => ⟨x, hx⟩, fun ⟨x, hx⟩ => ⟨x, ?_, hx⟩⟩
  by_contra hmem
  rw [hnone x hmem] at hx
  cases hx

/-- An item that occurs once has one debtor, who owes it once. -/
theorem unique (h : Owed owed items) (hnodup : items.Nodup) {a : α} {y : τ} (hx : a ∈ owed x)
    (hy : a ∈ owed y) : x = y := by
  obtain ⟨parties, -, -, hnone, hperm⟩ := h.exists_rest x
  by_contra hne
  have hmem : y ∈ parties := by
    by_contra hmem
    rw [hnone y (Ne.symm hne) hmem] at hy
    cases hy
  have hdisjoint := (List.nodup_append'.1 (hperm.nodup_iff.1 hnodup)).2.2
  exact hdisjoint hx (List.mem_flatMap.2 ⟨y, hmem, hy⟩)

theorem nodup (h : Owed owed items) (hnodup : items.Nodup) (x : τ) : (owed x).Nodup := by
  obtain ⟨parties, -, -, -, hperm⟩ := h.exists_rest x
  exact (List.nodup_append'.1 (hperm.nodup_iff.1 hnodup)).1

end Owed
