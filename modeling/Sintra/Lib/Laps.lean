import Mathlib

/-!
# A line wound on a ring of blocks

The positions of a line are wound on a ring of `m` blocks of `e` positions each. Block `x / e` of the
line comes to lie on block `x / e % m` of the ring.

* `anchor m t q` — the last block of the line up to block `t` that lies on block `q` of the ring.
-/

namespace Laps

/-- The block of the ring from the index on the ring. -/
theorem block_index (x : ℤ) {m e : ℤ} (hm : 0 < m) (he : 0 < e) : x % (m * e) / e = x / e % m := by
  have hx := Int.mul_ediv_add_emod x e
  have hd := Int.mul_ediv_add_emod (x / e) m
  have hr : 0 ≤ x % e := Int.emod_nonneg x he.ne'
  have hr' : x % e < e := Int.emod_lt_of_pos x he
  have hq : 0 ≤ x / e % m := Int.emod_nonneg _ hm.ne'
  have hq' : x / e % m < m := Int.emod_lt_of_pos _ hm
  have hmod : x % (m * e) = e * (x / e % m) + x % e := by
    refine ((Int.ediv_emod_unique (q := x / e / m) (mul_pos hm he)).2 ⟨?_, ?_, ?_⟩).2
    · linear_combination hx + e * hd
    · exact add_nonneg (mul_nonneg he.le hq) hr
    · nlinarith
  rw [hmod, Int.mul_add_ediv_left _ _ he.ne', Int.ediv_eq_zero_of_lt hr hr', add_zero]

/-- The last block up to `t` that lies on block `q` of the ring. -/
def anchor (m t q : ℤ) : ℤ := t - (t - q) % m

section

variable {m t t' q : ℤ}

theorem anchor_le (hm : 0 < m) : anchor m t q ≤ t := by
  have h := Int.emod_nonneg (t - q) hm.ne'
  unfold anchor
  omega

theorem anchor_emod : anchor m t q % m = q % m := by
  have h := Int.mul_ediv_add_emod (t - q) m
  have hanchor : anchor m t q = q + m * ((t - q) / m) := by
    unfold anchor
    linarith
  rw [hanchor, Int.add_mul_emod_self_left]

/-- A block less than a lap before `t` that lies on `q` is the anchor. -/
theorem anchor_eq {g : ℤ} (hg : g % m = q % m) (hle : g ≤ t) (hlt : t < g + m) :
    anchor m t q = g := by
  have hsub : (t - q) % m = t - g := by
    rw [Int.sub_emod, ← hg, ← Int.sub_emod]
    exact Int.emod_eq_of_lt (by omega) (by omega)
  unfold anchor
  omega

theorem anchor_self (h : q = t % m) (hm : 0 < m) : anchor m t q = t :=
  anchor_eq (by rw [h, Int.emod_emod]) le_rfl (by omega)

/-- The anchor stays while the line has not gone round once more. -/
theorem anchor_congr (hm : 0 < m) (hle : t ≤ t') (hlt : t' < anchor m t q + m) :
    anchor m t' q = anchor m t q :=
  anchor_eq anchor_emod ((anchor_le hm).trans hle) hlt

/-- No block that lies on another block of the ring is a lap behind the anchor. -/
theorem le_anchor_add {c : ℤ} (hc : c ≤ anchor m t q + m) (hne : c % m ≠ q % m) :
    c ≤ anchor m t q + (m - 1) := by
  by_contra hlt
  refine hne ?_
  have heq : c = anchor m t q + m := by omega
  rw [heq, Int.add_emod_right, anchor_emod]

end

/-- Less than a lap of blocks apart. -/
theorem emod_ne_emod {m e : ℕ} (he : 0 < e) {x y : ℕ} (hlt : y < x) (hblock : x / e < y / e + m) :
    x % (m * e) ≠ y % (m * e) := by
  intro heq
  obtain ⟨k, hk⟩ : m * e ∣ x - y :=
    Nat.dvd_of_mod_eq_zero (Nat.sub_mod_eq_zero_of_mod_eq heq)
  have hk0 : k ≠ 0 := by
    rintro rfl
    omega
  have hle : y + m * e ≤ x := by
    have : m * e ≤ m * e * k := Nat.le_mul_of_pos_right _ (Nat.pos_of_ne_zero hk0)
    omega
  have hdiv := Nat.div_le_div_right (c := e) hle
  rw [Nat.add_mul_div_right _ _ he] at hdiv
  omega

end Laps
