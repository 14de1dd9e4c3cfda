import Mathlib

/-!
# Hubs: append-only rings, readers, and one node that relays

Every node has a ring, which only grows. A reader takes the items of a ring one by one, in order, and
keeps what it has taken together with its verdict. One node, the hub, relays: an item with the right
verdict is copied into the hub's own ring. An item knows where it was first put.

* `Hub.Inv.mem_log`, `Hub.Inv.mem_ring` — what a reader has taken is in the ring, and what it has taken
  with the right verdict is in the ring of the hub.
-/

/-- The rings of the nodes, and what each reader has taken from each ring. -/
structure Hub (P F V : Type*) where
  rings : P → List F
  logs : P → P → List (F × V)

namespace Hub

open Function Option

variable {P F V : Type*} [DecidableEq P]

/-- An item is put into a ring. -/
def write (h : Hub P F V) (p : P) (f : F) : Hub P F V :=
  { h with rings := update h.rings p (h.rings p ++ [f]) }

/-- A reader takes an item. -/
def read (h : Hub P F V) (q r : P) (f : F) (v : V) : Hub P F V :=
  { h with logs := update h.logs q (update (h.logs q) r (h.logs q r ++ [(f, v)])) }

/-- The item a reader takes next. -/
def next (h : Hub P F V) (q r : P) : Option F := (h.rings r)[(h.logs q r).length]?

/-- The reader has taken everything. -/
def Drained (h : Hub P F V) (q r : P) : Prop := (h.logs q r).length = (h.rings r).length

/-- How often a reader has done something with an item. -/
def times (h : Hub P F V) (origin : F → P × ℕ) (does : V → Bool) (q r : P) (o : P × ℕ) : ℕ :=
  (h.logs q r).countP fun e => decide (origin e.1 = o) && does e.2

/-- One of the readers has done it, once. -/
def Once (times : P → ℕ) : Prop := ∃ r, times r = 1 ∧ ∀ r', r' ≠ r → times r' = 0

/-- No reader has done it. -/
def Never (times : P → ℕ) : Prop := ∀ r, times r = 0

section

variable (hub : P) (origin : F → P × ℕ) (copy : P → F → F) (relays : V → Bool)

/-- The copy of an item that a reader of the hub has made. -/
def relayed (r : P) (e : F × V) : Option F := if relays e.2 then some (copy r e.1) else none

/-- What holds of the rings and the logs, kept by `write`, `read` and `relay`. -/
structure Inv (h : Hub P F V) : Prop where
  /-- A reader has taken the first items of a ring. -/
  taken : ∀ q r, (h.logs q r).map Prod.fst <+: h.rings r
  /-- An item is where it was first put. -/
  own : ∀ p n f, (h.rings p)[n]? = some f → p ≠ hub ∨ (origin f).1 = hub → origin f = (p, n)
  /-- The ring of the hub holds copies of what it relays. -/
  copies : ∀ p, p ≠ hub →
    (h.rings hub).filter (fun f => (origin f).1 = p) = (h.logs hub p).filterMap (relayed copy relays p)

end

variable {hub : P} {origin : F → P × ℕ} {copy : P → F → F} {relays : V → Bool} {h : Hub P F V}
  {p q r : P} {f : F} {v : V}

@[simp] theorem rings_read (h : Hub P F V) (q r : P) (f : F) (v : V) :
    (h.read q r f v).rings = h.rings := rfl

@[simp] theorem logs_write (h : Hub P F V) (p : P) (f : F) : (h.write p f).logs = h.logs := rfl

theorem logs_read_self (h : Hub P F V) (q r : P) (f : F) (v : V) :
    (h.read q r f v).logs q r = h.logs q r ++ [(f, v)] := by
  simp [read]

theorem logs_read_of_ne {q' r' : P} (hne : ¬(q' = q ∧ r' = r)) :
    (h.read q r f v).logs q' r' = h.logs q' r' := by
  obtain rfl | hq := eq_or_ne q' q
  · have hr : r' ≠ r := fun hr => hne ⟨rfl, hr⟩
    simp [read, update_of_ne hr]
  · simp [read, update_of_ne hq]

/-- A log only grows. -/
theorem isPrefix_read (h : Hub P F V) (q r : P) (f : F) (v : V) (q' r' : P) :
    h.logs q' r' <+: (h.read q r f v).logs q' r' := by
  by_cases hsame : q' = q ∧ r' = r
  · obtain ⟨rfl, rfl⟩ := hsame
    rw [logs_read_self]
    exact List.prefix_append _ _
  · exact ⟨[], by rw [List.append_nil, logs_read_of_ne hsame]⟩

variable {g : F}

/-- What is in a log after one more entry. -/
theorem mem_logs_read {q' r' : P} {w : V} (hmem : (g, w) ∈ (h.read q r f v).logs q' r') :
    (g, w) ∈ h.logs q' r' ∨ q' = q ∧ r' = r ∧ g = f ∧ w = v := by
  by_cases hsame : q' = q ∧ r' = r
  · obtain ⟨rfl, rfl⟩ := hsame
    rw [logs_read_self, List.mem_append, List.mem_singleton, Prod.mk.injEq] at hmem
    rcases hmem with hmem | ⟨rfl, rfl⟩
    · exact .inl hmem
    · exact .inr ⟨rfl, rfl, rfl, rfl⟩
  · rw [logs_read_of_ne hsame] at hmem
    exact .inl hmem

theorem rings_write_self (h : Hub P F V) (p : P) (f : F) :
    (h.write p f).rings p = h.rings p ++ [f] := by
  simp [write]

theorem rings_write_of_ne (hne : q ≠ p) : (h.write p f).rings q = h.rings q := by
  simp [write, update_of_ne hne]

/-- What is in a ring after one more item. -/
theorem mem_rings_write (hmem : g ∈ (h.write p f).rings q) :
    g ∈ h.rings q ∨ q = p ∧ g = f := by
  obtain rfl | hq := eq_or_ne q p
  · rw [rings_write_self, List.mem_append, List.mem_singleton] at hmem
    exact hmem.imp_right fun hg => ⟨rfl, hg⟩
  · rw [rings_write_of_ne hq] at hmem
    exact .inl hmem

/-- A ring only grows. -/
theorem isPrefix_write (h : Hub P F V) (p q : P) (f : F) : h.rings q <+: (h.write p f).rings q := by
  obtain rfl | hq := eq_or_ne q p
  · rw [rings_write_self]
    exact List.prefix_append _ _
  · exact ⟨[], by rw [List.append_nil, rings_write_of_ne hq]⟩

/-! ### Steps -/

theorem inv_empty (hempty : ∀ p, h.rings p = []) (hlogs : ∀ q r, h.logs q r = []) :
    Inv hub origin copy relays h where
  taken q r := by simp [hlogs]
  own p n f hf := by simp [hempty] at hf
  copies p _ := by simp [hempty, hlogs]

theorem getElem?_write {n : ℕ} (hg : ((h.write p f).rings q)[n]? = some g) :
    (h.rings q)[n]? = some g ∨ q = p ∧ n = (h.rings p).length ∧ g = f := by
  obtain rfl | hq := eq_or_ne q p
  · rw [rings_write_self, List.getElem?_append] at hg
    split_ifs at hg with hn
    · exact .inl hg
    · rw [List.getElem?_singleton] at hg
      split_ifs at hg with hzero
      obtain rfl : f = g := by simpa using hg
      exact .inr ⟨rfl, by omega, rfl⟩
  · rw [rings_write_of_ne hq] at hg
    exact .inl hg

theorem isPrefix_snoc {l : List F} {k : List F} {x : F} (hk : k <+: l) (hx : l[k.length]? = some x) :
    k ++ [x] <+: l := by
  obtain ⟨t, rfl⟩ := hk
  cases t with
  | nil => simp at hx
  | cons y t =>
    obtain rfl : y = x := by simpa using hx
    exact ⟨t, by simp⟩

variable {does : V → Bool}

theorem times_eq_zero {o : P × ℕ}
    (hnot : ∀ f v, (f, v) ∈ h.logs q r → origin f = o → does v = false) :
    h.times origin does q r o = 0 := by
  refine List.countP_eq_zero.2 ?_
  rintro ⟨f, v⟩ hmem
  by_cases ho : origin f = o
  · simp [hnot f v hmem ho]
  · simp [ho]

variable (hinv : Inv hub origin copy relays h)

include hinv

/-- A node puts an item of its own. -/
theorem Inv.write (hf : origin f = (p, (h.rings p).length)) :
    Inv hub origin copy relays (h.write p f) where
  taken q r := (hinv.taken q r).trans (h.isPrefix_write p r f)
  own q n g hg hown := by
    rcases getElem?_write hg with hg | ⟨rfl, rfl, rfl⟩
    · exact hinv.own q n g hg hown
    · exact hf
  copies q hq := by
    rw [logs_write, ← hinv.copies q hq]
    obtain rfl | hp := eq_or_ne p hub
    · rw [rings_write_self, List.filter_append, List.filter_singleton, hf]
      simp [hq.symm]
    · rw [rings_write_of_ne (Ne.symm hp)]

theorem Inv.taken_read (hnext : h.next q r = some f)
    (q' r' : P) : ((h.read q r f v).logs q' r').map Prod.fst <+: h.rings r' := by
  by_cases hsame : q' = q ∧ r' = r
  · obtain ⟨rfl, rfl⟩ := hsame
    rw [logs_read_self, List.map_append]
    refine isPrefix_snoc (hinv.taken q' r') ?_
    rw [List.length_map]
    exact hnext
  · rw [logs_read_of_ne hsame]
    exact hinv.taken q' r'

/-- A reader takes an item and does not relay it. -/
theorem Inv.read (hnext : h.next q r = some f)
    (hv : relays v = false) : Inv hub origin copy relays (h.read q r f v) where
  taken := hinv.taken_read hnext
  own := hinv.own
  copies p hp := by
    rw [rings_read, hinv.copies p hp]
    by_cases hsame : hub = q ∧ p = r
    · obtain ⟨rfl, rfl⟩ := hsame
      rw [logs_read_self, List.filterMap_append]
      simp [relayed, hv]
    · rw [logs_read_of_ne hsame]

/-- The hub takes an item of another node and relays it. -/
theorem Inv.relay (hnext : h.next hub r = some f)
    (hr : r ≠ hub) (hv : relays v = true) (hcopy : origin (copy r f) = origin f) :
    Inv hub origin copy relays ((h.read hub r f v).write hub (copy r f)) := by
  have horigin : origin f = (r, (h.logs hub r).length) := hinv.own r _ f hnext (.inl hr)
  constructor
  · intro q r'
    exact (hinv.taken_read hnext q r').trans ((h.read hub r f v).isPrefix_write hub r' _)
  · intro p n g hg hown
    rcases getElem?_write hg with hg | ⟨rfl, rfl, rfl⟩
    · exact hinv.own p n g hg hown
    · rw [hcopy, horigin] at hown
      rcases hown with hne | heq
      · exact absurd rfl hne
      · exact absurd heq hr
  · intro p hp
    rw [logs_write, rings_write_self, rings_read, List.filter_append, hinv.copies p hp,
      List.filter_singleton, hcopy, horigin]
    obtain rfl | hpr := eq_or_ne p r
    · rw [logs_read_self, List.filterMap_append]
      simp [relayed, hv]
    · rw [logs_read_of_ne fun hsame => hpr hsame.2]
      simp [Ne.symm hpr]

/-! ### What follows -/

theorem Inv.mem_log (hmem : (f, v) ∈ h.logs q r) : f ∈ h.rings r :=
  (hinv.taken q r).subset (List.mem_map_of_mem hmem)

/-- A drained reader has taken exactly what is in the ring. -/
theorem Inv.log_eq (hdrained : h.Drained q r) : (h.logs q r).map Prod.fst = h.rings r :=
  (hinv.taken q r).eq_of_length (by rw [List.length_map]; exact hdrained)

/-- A drained reader has taken every item of the ring. -/
theorem Inv.exists_mem_log (hdrained : h.Drained q r)
    (hf : f ∈ h.rings r) : ∃ v, (f, v) ∈ h.logs q r := by
  rw [← hinv.log_eq hdrained, List.mem_map] at hf
  obtain ⟨⟨g, v⟩, hmem, rfl⟩ := hf
  exact ⟨v, hmem⟩

/-- An item is found where its origin says. -/
theorem Inv.getElem?_origin (hf : f ∈ h.rings p)
    (hown : p ≠ hub ∨ (origin f).1 = hub) : (h.rings p)[(origin f).2]? = some f := by
  obtain ⟨n, hn⟩ := List.mem_iff_getElem?.1 hf
  rw [hinv.own p n f hn hown]
  exact hn

/-- The items of a node other than the hub are in the order in which it has put them. -/
theorem Inv.pairwise_own (hp : p ≠ hub) :
    (h.rings p).Pairwise fun f g => (origin f).2 < (origin g).2 := by
  rw [List.pairwise_iff_getElem]
  intro i j hi hj hij
  rw [hinv.own p i _ (List.getElem?_eq_getElem hi) (.inl hp),
    hinv.own p j _ (List.getElem?_eq_getElem hj) (.inl hp)]
  exact hij

/-- What the hub has taken with the verdict to relay is in its ring. -/
theorem Inv.mem_ring (hr : r ≠ hub)
    (hmem : (f, v) ∈ h.logs hub r) (hv : relays v = true) : copy r f ∈ h.rings hub := by
  have hfilter : copy r f ∈ (h.rings hub).filter fun g => (origin g).1 = r := by
    rw [hinv.copies r hr, List.mem_filterMap]
    exact ⟨(f, v), hmem, by simp [relayed, hv]⟩
  exact List.mem_of_mem_filter hfilter

/-- What is in the ring of the hub and not its own was taken from its owner. -/
theorem Inv.of_mem_ring (hmem : f ∈ h.rings hub) (hf : (origin f).1 ≠ hub) :
    ∃ g v, (g, v) ∈ h.logs hub (origin f).1 ∧ relays v = true ∧ f = copy (origin f).1 g := by
  have hfilter : f ∈ (h.rings hub).filter fun g => (origin g).1 = (origin f).1 :=
    List.mem_filter.2 ⟨hmem, by simp⟩
  rw [hinv.copies _ hf, List.mem_filterMap] at hfilter
  obtain ⟨⟨g, v⟩, hlog, heq⟩ := hfilter
  simp only [relayed, ite_none_right_eq_some, some.injEq] at heq
  exact ⟨g, v, hlog, heq.1, heq.2.symm⟩

/-- A node has put an item only once. -/
theorem Inv.own_unique (hf : f ∈ h.rings p) (hg : g ∈ h.rings p)
    (hown : p ≠ hub ∨ (origin f).1 = hub) (horigin : origin g = origin f) : g = f := by
  have hplace := hinv.getElem?_origin hf hown
  have hplace' := hinv.getElem?_origin hg (by rw [horigin]; exact hown)
  rw [horigin] at hplace'
  exact mem_unique hplace' hplace

variable (hcopy : ∀ r f, origin (copy r f) = origin f)

include hcopy

/-- **First in, first out.** -/
theorem Inv.fifo : (h.rings hub).Pairwise fun f g =>
    (origin f).1 = (origin g).1 → (origin f).2 < (origin g).2 := by
  have hown : ∀ p, ((h.rings hub).filter fun f => (origin f).1 = p).Pairwise fun f g =>
      (origin f).2 < (origin g).2 := by
    intro p
    obtain rfl | hp := eq_or_ne p hub
    · rw [List.pairwise_filter, List.pairwise_iff_getElem]
      intro i j hi hj hij hfi hfj
      rw [hinv.own p i _ (List.getElem?_eq_getElem hi) (.inr (by simpa using hfi)),
        hinv.own p j _ (List.getElem?_eq_getElem hj) (.inr (by simpa using hfj))]
      exact hij
    · rw [hinv.copies p hp]
      have hlog := (hinv.pairwise_own hp).sublist (hinv.taken hub p).sublist
      rw [List.pairwise_map] at hlog
      refine List.Pairwise.filterMap _ ?_ hlog
      intro e e' hlt b hb b' hb'
      simp only [relayed, ite_none_right_eq_some, some.injEq] at hb hb'
      rw [← hb.2, ← hb'.2, hcopy, hcopy]
      exact hlt
  rw [List.pairwise_iff_getElem]
  intro i j hi hj hij heq
  have hfilter := List.pairwise_filter.1 (hown (origin (h.rings hub)[j]).1)
  exact List.pairwise_iff_getElem.1 hfilter i j hi hj hij (by simpa using heq) (by simp)

/-- **No item is relayed twice.** -/
theorem Inv.nodup : ((h.rings hub).map origin).Nodup := by
  rw [List.Nodup, List.pairwise_map]
  refine (hinv.fifo hcopy).imp ?_
  intro f g hlt heq
  rw [heq] at hlt
  exact absurd (hlt rfl) (lt_irrefl _)

/-- No reader takes an item twice. -/
theorem Inv.nodup_log (q r : P) : ((h.logs q r).map fun e => origin e.1).Nodup := by
  have hring : ((h.rings r).map origin).Nodup := by
    obtain rfl | hr := eq_or_ne r hub
    · exact hinv.nodup hcopy
    · rw [List.Nodup, List.pairwise_map]
      refine (hinv.pairwise_own hr).imp ?_
      intro f g hlt heq
      rw [heq] at hlt
      exact lt_irrefl _ hlt
  have hsub : ((h.logs q r).map Prod.fst).map origin <+: (h.rings r).map origin :=
    (hinv.taken q r).map origin
  rw [List.map_map] at hsub
  exact hring.sublist hsub.sublist

/-- What a reader has done once, it has not done again. -/
theorem Inv.times_eq_one (hmem : (f, v) ∈ h.logs q r) (hdoes : does v = true) :
    h.times origin does q r (origin f) = 1 := by
  refine le_antisymm ?_ (List.countP_pos_iff.2 ⟨(f, v), hmem, by simp [hdoes]⟩)
  calc h.times origin does q r (origin f)
      ≤ (h.logs q r).countP fun e => decide (origin e.1 = origin f) :=
        List.countP_mono_left fun e _ he => (Bool.and_eq_true_iff.1 he).1
    _ = ((h.logs q r).map fun e => origin e.1).count (origin f) := by
        rw [List.count, List.countP_map]
        refine List.countP_congr fun e _ => ?_
        simp
    _ ≤ 1 := List.nodup_iff_count_le_one.1 (hinv.nodup_log hcopy q r) _

/-- A reader that has done something else with an item has not done this. -/
theorem Inv.times_eq_zero_of_mem (hmem : (f, v) ∈ h.logs q r)
    (hdoes : does v = false) : h.times origin does q r (origin f) = 0 := by
  refine times_eq_zero ?_
  intro g w hg hgf
  have heq := List.inj_on_of_nodup_map (hinv.nodup_log hcopy q r) hg hmem hgf
  obtain ⟨-, rfl⟩ := Prod.mk.inj heq
  exact hdoes

/-- What has the origin of an item is the item or its copy. -/
theorem Inv.eq_or_eq_copy (hf : f ∈ h.rings p) (hown : (origin f).1 = p)
    (hg : g ∈ h.rings r) (horigin : origin g = origin f) : g = f ∨ g = copy p f := by
  obtain rfl | hr := eq_or_ne r hub
  · by_cases hp : p = r
    · subst hp
      exact .inl (hinv.own_unique hf hg (.inr hown) horigin)
    · have hgp : (origin g).1 = p := by rw [horigin, hown]
      obtain ⟨g', v, hlog, -, hcopied⟩ := hinv.of_mem_ring hg (by rw [hgp]; exact hp)
      rw [hgp] at hlog hcopied
      have hsame : origin g' = origin f := by rw [← horigin, hcopied, hcopy]
      obtain rfl : g' = f := hinv.own_unique hf (hinv.mem_log hlog) (.inl hp) hsame
      exact .inr hcopied
  · obtain ⟨n, hn⟩ := List.mem_iff_getElem?.1 hg
    have hgr : (origin g).1 = r := by rw [hinv.own r n g hn (.inl hr)]
    obtain rfl : r = p := by rw [← hgr, horigin, hown]
    exact .inl (hinv.own_unique hf hg (.inl hr) horigin)

/-! ### One reader -/

variable (hreads : ∀ {q r e}, e ∈ h.logs q r → q = hub ∨ r = hub)

include hreads

/-- What the hub has taken from a node and not relayed, it does not find in its own ring. -/
theorem Inv.not_mem_ring (hr : r ≠ hub) (hmem : (f, v) ∈ h.logs q r) (hv : relays v = false)
    (horigin : origin g = origin f) : g ∉ h.rings hub := by
  intro hg
  have hf := hinv.own r _ f (hinv.getElem?_origin (hinv.mem_log hmem) (.inl hr)) (.inl hr)
  have hown : (origin g).1 = r := by rw [horigin, hf]
  obtain ⟨g', w, hlog, hw, hcopied⟩ := hinv.of_mem_ring hg (by rw [hown]; exact hr)
  rw [hown] at hlog hcopied
  obtain rfl : q = hub := (hreads hmem).resolve_right hr
  have hsame : origin g' = origin f := by rw [← horigin, hcopied, hcopy]
  have heq := List.inj_on_of_nodup_map (hinv.nodup_log hcopy q r) hlog hmem hsame
  obtain ⟨-, rfl⟩ := Prod.mk.inj heq
  rw [hv] at hw
  cases hw

/-- A node takes an item for good from one ring only. -/
theorem Inv.reader_unique {r' : P} {w : V} (hmem : (f, v) ∈ h.logs q r)
    (hmem' : (g, w) ∈ h.logs q r') (horigin : origin g = origin f) (hv : relays v = false)
    (hw : relays w = false) : r' = r := by
  by_cases hr : r = hub
  · by_contra hne
    subst hr
    exact hinv.not_mem_ring hcopy hreads hne hmem' hw horigin.symm (hinv.mem_log hmem)
  · by_cases hr' : r' = hub
    · subst hr'
      exact absurd (hinv.mem_log hmem') (hinv.not_mem_ring hcopy hreads hr hmem hv horigin)
    · have hf := hinv.own r _ f (hinv.getElem?_origin (hinv.mem_log hmem) (.inl hr)) (.inl hr)
      have hg := hinv.own r' _ g (hinv.getElem?_origin (hinv.mem_log hmem') (.inl hr')) (.inl hr')
      rw [hf, hg] at horigin
      exact (Prod.mk.inj horigin).1

/-- **Exactly once.** What a node has done with an item and what is no relaying, it has done once. -/
theorem Inv.once (hdoes : ∀ v, does v = true → relays v = false)
    (hmem : (f, v) ∈ h.logs q r) (hv : does v = true) :
    Once fun r => h.times origin does q r (origin f) := by
  refine ⟨r, hinv.times_eq_one hcopy hmem hv, ?_⟩
  intro r' hne
  refine times_eq_zero ?_
  intro g w hg horigin
  by_contra hw
  rw [Bool.not_eq_false] at hw
  exact hne (hinv.reader_unique hcopy hreads hmem hg horigin (hdoes v hv) (hdoes w hw))

end Hub
