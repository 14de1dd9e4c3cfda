import Sintra.Ring.Lifecycle

/-!
# The files of a ring and its attachments

Whoever holds the lifecycle mutex knows what it has found, because nobody else writes the anchor and
processes that are dead stay dead (`Knows`). While `deleting` is set, no record is live but the one the
detach that has set it is about to clear, and this survives the death of that process: what a removal
relies on is in the anchor, not in who executes it.
-/

namespace Sintra.Ring.Lifecycle

open Function

open Slots (Agent)

variable {k : ℕ}

/-! ### What a control point says -/

def Stage.owns : Stage k → Option (Fin k)
  | .release i => some i
  | _ => none

namespace Pc

/-- The record an object owns. -/
def owns : Pc k → Option (Fin k)
  | .wait release => release
  | .scavenge w _ | .scavengeStamp w _ | .count w _ _ => w.owns
  | .attached i | .setDeleting i | .clearPid i _ | .leave (.attached i) => some i
  | _ => none

/-- The object holds the mutex. -/
def inside : Pc k → Bool
  | .idle | .anchor | .dataExists | .controlExists | .visible | .create | .wait _ | .attached _ => false
  | _ => true

end Pc

namespace State

def Live (s : State k) (a : Agent) : Prop := a.process ∉ s.exited

/-- No record is live. -/
def NoneLive (s : State k) : Prop := ∀ i, s.live i = false

/-- No record is live but `i`. -/
def OnlyLive (s : State k) (i : Fin k) : Prop := ∀ j, s.live j = true → j = i

/-- At most `sum` of the first `j` records are live. -/
def Tally (s : State k) (j sum : ℕ) : Prop :=
  (Finset.univ.filter fun i : Fin k => (i : ℕ) < j ∧ s.live i = true).card ≤ sum

end State

/-- The stage is part of an attach. -/
def Stage.attaching : Stage k → Bool
  | .recover => true
  | .claim => true
  | _ => false

/-- What a count under way has found. -/
def Stage.Counting (s : State k) (j sum : ℕ) : Stage k → Prop
  | .recover => s.deleting = false ∧ (s.interrupted = true → sum = 0)
  | .claim => s.deleting = false
  | .abort => True
  | .release i => s.sole = true → s.OnlyLive i ∧ sum ≤ if (i : ℕ) < j then 1 else 0

/-- What the holder of the mutex knows. -/
def Knows (s : State k) (a : Agent) : Pc k → Prop
  | .scavenge w _ => w.attaching = true → s.deleting = false
  | .scavengeStamp w j => (s.records j).pid = 0 ∧ (w.attaching = true → s.deleting = false)
  | .count w j sum => s.Tally j sum ∧ w.Counting s j sum
  | .removeControl r => s.NoneLive ∧ (r = .stale → s.deleting = false)
  | .removeData r => s.NoneLive ∧ s.control = false ∧ (r = .stale → s.deleting = false)
  | .clearDeleting _ => s.NoneLive ∧ s.control = false ∧ s.data = false
  | .attachData => s.deleting = false ∧ (s.interrupted = true → s.data = false ∧ s.control = false)
  | .mapData | .attachControl | .mapControl | .slot _ => s.deleting = false
  | .claimPid i =>
    s.deleting = false ∧ (s.records i).pid = 0 ∧ (s.records i).startStamp = a.process.startStamp
  | .setDeleting i => s.OnlyLive i
  | .clearPid i final => (final = true → s.OnlyLive i) ∧ (s.sole = true → final = true)
  | .clearStamp i final =>
    (s.records i).pid = 0 ∧ (final = true → s.NoneLive) ∧ (s.sole = true → final = true)
  | .leave (.detached final) =>
    (final = true → s.data = false ∧ s.control = false ∧ s.deleting = false) ∧
      (s.sole = true → final = true)
  | _ => True

structure Inv (s : State k) : Prop where
  lock : ∀ a, s.Live a → (s.pc a).inside = true → s.holder = some a
  owned : ∀ a i, s.Live a → (s.pc a).owns = some i → s.records i = .ofProcess a.process
  unique : ∀ a b i, s.Live a → s.Live b → (s.pc a).owns = some i → (s.pc b).owns = some i → a = b
  deleting : s.deleting = true → ∀ i, s.live i = true → ∃ a, s.Live a ∧ s.pc a = .clearPid i true
  interrupted : s.interrupted = true → s.NoneLive
  knows : ∀ a, s.Live a → Knows s a (s.pc a)

theorem inv_initial : Inv (State.initial k) where
  lock := by
    intro a _ h
    cases h
  owned := by
    intro a i _ h
    cases h
  unique := by
    intro a b i _ _ h
    cases h
  deleting := by
    intro h
    cases h
  interrupted := by
    intro h
    cases h
  knows := by
    intro a _
    trivial

/-! ### Live records -/

theorem Record.ofProcess_injective : Injective Record.ofProcess := by
  rintro ⟨pid, stamp, hp, hs⟩ ⟨pid', stamp', hp', hs'⟩ h
  cases h
  rfl

section

variable {s t : State k} {a b : Agent} {e : Effect k} {c c₀ : Pc k} {i j : Fin k} {x : ℕ}
  {w : Stage k} {ch : Choice}

theorem State.live_of_pid_eq_zero (h : (s.records i).pid = 0) : s.live i = false := by
  simp [State.live, Record.live, h]

/-- The record of a live process is live. -/
theorem State.live_ofProcess (ha : s.Live a) (hi : s.records i = .ofProcess a.process) :
    s.live i = true := by
  have hpid : (Record.ofProcess a.process).pid ≠ 0 := a.process.pid_ne_zero
  simp only [State.live, Record.live, hi, Bool.and_eq_true, decide_eq_true_eq]
  refine ⟨hpid, fun p hp heq => ha ?_⟩
  rwa [← Record.ofProcess_injective heq]

theorem State.pc_goto_self (s : State k) (a : Agent) (c : Pc k) : (s.goto a c).pc a = c :=
  update_self _ _ _

theorem State.pc_goto_of_ne (s : State k) {a b : Agent} (c : Pc k) (h : b ≠ a) :
    (s.goto a c).pc b = s.pc b :=
  update_of_ne h _ _

theorem State.pc_apply (s : State k) (a : Agent) (e : Effect k) : (s.apply a e).pc = s.pc := by
  cases e <;> rfl

theorem State.exited_apply (s : State k) (a : Agent) (e : Effect k) :
    (s.apply a e).exited = s.exited := by
  cases e <;> rfl

/-- Outside the mutex there is nothing to know. -/
theorem knows_of_outside (h : c.inside = false) : Knows s a c := by
  cases c <;> trivial

/-- What is known does not depend on the anchor's existence, on the mutex or on the others. -/
theorem Knows.frame {anchor : Bool} {holder : Option Agent} {pc : Agent → Pc k} (h : Knows s a c) :
    Knows { s with anchor := anchor, holder := holder, pc := pc } a c := by
  cases c <;> exact h

section

variable (hs : Inv s) (ha : s.Live a)

include hs ha

theorem Inv.knows_of (hpc : s.pc a = c) : Knows s a c := by
  rw [← hpc]
  exact hs.knows a ha

theorem Inv.excl (hin : (s.pc a).inside = true) (hb : s.Live b) (hbin : (s.pc b).inside = true) :
    b = a :=
  Option.some.inj ((hs.lock b hb hbin).symm.trans (hs.lock a ha hin))

/-- A step of the holder of the mutex. -/
theorem Inv.inside (hin : (s.pc a).inside = true)
    (hholder : c.inside = true → (s.apply a e).holder = some a)
    (howned : ∀ i, c.owns = some i → (s.apply a e).records i = .ofProcess a.process ∧
      ((s.pc a).owns = some i ∨ (s.records i).pid = 0))
    (hrecords : ∀ i, (s.apply a e).records i = s.records i ∨ (s.pc a).owns = some i ∨
      s.live i = false)
    (hdeleting : (s.apply a e).deleting = true → ∀ i, (s.apply a e).live i = true →
      c = .clearPid i true)
    (hinterrupted : (s.apply a e).interrupted = true → (s.apply a e).NoneLive)
    (hknows : Knows (s.apply a e) a c) : Inv ((s.apply a e).goto a c) := by
  have hlive : ∀ b, ((s.apply a e).goto a c).Live b ↔ s.Live b := by
    intro b
    unfold State.Live
    rw [State.goto, State.exited_apply]
  have hself := State.pc_goto_self (s.apply a e) a c
  have hother : ∀ b, b ≠ a → ((s.apply a e).goto a c).pc b = s.pc b := by
    intro b hb
    rw [State.pc_goto_of_ne _ _ hb, State.pc_apply]
  have hout : ∀ b, b ≠ a → s.Live b → (s.pc b).inside = false := by
    intro b hba hb
    by_contra hbin
    exact hba (hs.excl ha hin hb (by simpa using hbin))
  -- the record of another live object is live, and is left alone
  have hkept : ∀ b i, b ≠ a → s.Live b → (s.pc b).owns = some i →
      (s.apply a e).records i = s.records i ∧ c.owns ≠ some i := by
    intro b i hba hb hi
    have hrecord := hs.owned b i hb hi
    have hlive := State.live_ofProcess hb hrecord
    constructor
    · rcases hrecords i with hsame | hown | hdead
      · exact hsame
      · exact absurd (hs.unique b a i hb ha hi hown) hba
      · simp [hlive] at hdead
    · intro hci
      rcases (howned i hci).2 with hown | hpid
      · exact hba (hs.unique b a i hb ha hi hown)
      · simp [State.live_of_pid_eq_zero hpid] at hlive
  constructor
  · intro b hb hbin
    rw [hlive] at hb
    obtain rfl | hba := eq_or_ne b a
    · rw [hself] at hbin
      exact hholder hbin
    · rw [hother b hba, hout b hba hb] at hbin
      cases hbin
  · intro b i hb hi
    rw [hlive] at hb
    obtain rfl | hba := eq_or_ne b a
    · rw [hself] at hi
      exact (howned i hi).1
    · rw [hother b hba] at hi
      exact (hkept b i hba hb hi).1.trans (hs.owned b i hb hi)
  · intro b d i hb hd hbi hdi
    rw [hlive] at hb hd
    obtain rfl | hba := eq_or_ne b a
    · by_cases hdb : d = b
      · exact hdb.symm
      · rw [hself] at hbi
        rw [hother d hdb] at hdi
        exact absurd hbi (hkept d i hdb hd hdi).2
    · rw [hother b hba] at hbi
      obtain rfl | hda := eq_or_ne d a
      · rw [hself] at hdi
        exact absurd hdi (hkept b i hba hb hbi).2
      · rw [hother d hda] at hdi
        exact hs.unique b d i hb hd hbi hdi
  · intro hdel i hi
    refine ⟨a, (hlive a).2 ha, ?_⟩
    rw [hself]
    exact hdeleting hdel i hi
  · exact hinterrupted
  · intro b hb
    rw [hlive] at hb
    obtain rfl | hba := eq_or_ne b a
    · rw [hself]
      cases c <;> exact hknows
    · rw [hother b hba]
      exact knows_of_outside (hout b hba hb)

/-- A step without the mutex, or to take it. -/
theorem Inv.outside (hin : (s.pc a).inside = false) (anchor : Bool)
    (holder : Option Agent) (hkept : ∀ b, b ≠ a → s.Live b → s.holder = some b → holder = some b)
    (hholder : c.inside = true → holder = some a)
    (howns : ∀ i, c.owns = some i → (s.pc a).owns = some i) (hknows : Knows s a c) :
    Inv (State.goto { s with anchor := anchor, holder := holder } a c) := by
  have hself := State.pc_goto_self { s with anchor := anchor, holder := holder } a c
  have hother : ∀ b, b ≠ a →
      (State.goto { s with anchor := anchor, holder := holder } a c).pc b = s.pc b :=
    fun b hb => State.pc_goto_of_ne _ _ hb
  have howned : ∀ b i, s.Live b →
      ((State.goto { s with anchor := anchor, holder := holder } a c).pc b).owns = some i →
      (s.pc b).owns = some i := by
    intro b i hb hi
    obtain rfl | hba := eq_or_ne b a
    · rw [hself] at hi
      exact howns i hi
    · rwa [hother b hba] at hi
  constructor
  · intro b hb hbin
    obtain rfl | hba := eq_or_ne b a
    · rw [hself] at hbin
      exact hholder hbin
    · rw [hother b hba] at hbin
      exact hkept b hba hb (hs.lock b hb hbin)
  · intro b i hb hi
    exact hs.owned b i hb (howned b i hb hi)
  · intro b d i hb hd hbi hdi
    exact hs.unique b d i hb hd (howned b i hb hbi) (howned d i hd hdi)
  · intro hdel i hi
    obtain ⟨b, hb, hpc⟩ := hs.deleting hdel i hi
    refine ⟨b, hb, ?_⟩
    rw [hother b ?_]
    · exact hpc
    · rintro rfl
      rw [hpc] at hin
      cases hin
  · exact hs.interrupted
  · intro b hb
    obtain rfl | hba := eq_or_ne b a
    · rw [hself]
      exact hknows.frame
    · rw [hother b hba]
      exact (hs.knows b hb).frame

/-- A step without the mutex that goes on. -/
theorem Inv.stay (hpc : s.pc a = c₀) (hin : c₀.inside = false) (anchor : Bool) (hc : c.inside = false)
    (howns : ∀ i, c.owns = some i → c₀.owns = some i) :
    Inv (State.goto { s with anchor := anchor } a c) := by
  subst hpc
  exact hs.outside ha hin anchor s.holder (fun _ _ _ => id) (fun h => by simp [hc] at h) howns
    (knows_of_outside hc)

/-- The mutex is taken. -/
theorem Inv.enter (hpc : s.pc a = c₀) (hin : c₀.inside = false) (hfree : s.lockFree = true)
    (howns : ∀ i, c.owns = some i → c₀.owns = some i) (hknows : Knows s a c) :
    Inv ((s.apply a .lock).goto a c) := by
  subst hpc
  refine hs.outside ha hin s.anchor (some a) ?_ (fun _ => rfl) howns hknows
  intro b _ hb hholder
  simp only [State.lockFree, hholder, Option.all_some, decide_eq_true_eq] at hfree
  exact absurd hfree hb

/-! ### Steps with the mutex -/

/-- But for the clearing of its record by a final detach, `deleting` means that no record is live. -/
theorem Inv.none_of_deleting (hpc : s.pc a = c₀) (hin : c₀.inside = true)
    (hnot : ∀ i, c₀ ≠ .clearPid i true) (hdel : s.deleting = true) : s.NoneLive := by
  subst hpc
  intro i
  by_contra hi
  obtain ⟨b, hb, hbpc⟩ := hs.deleting hdel i (by simpa using hi)
  obtain rfl := hs.excl ha hin hb (by rw [hbpc]; rfl)
  exact hnot i hbpc

/-- A step that leaves the table and the flag alone. -/
theorem Inv.keep (hpc : s.pc a = c₀) (hin : c₀.inside = true) (hnot : ∀ i, c₀ ≠ .clearPid i true)
    (data control sole : Bool)
    (howns : ∀ i, c.owns = some i → c₀.owns = some i)
    (hknows : Knows { s with data := data, control := control, sole := sole } a c)
    (he : s.apply a e = { s with data := data, control := control, sole := sole }) :
    Inv ((s.apply a e).goto a c) := by
  subst hpc
  have hrecords : (s.apply a e).records = s.records := by rw [he]
  have hlive : ∀ i, (s.apply a e).live i = s.live i := by
    intro i
    unfold State.live
    rw [hrecords, State.exited_apply]
  refine hs.inside ha hin ?_ ?_ ?_ ?_ ?_ ?_
  · intro _
    rw [he]
    exact hs.lock a ha hin
  · intro i hi
    rw [hrecords]
    exact ⟨hs.owned a i ha (howns i hi), .inl (howns i hi)⟩
  · intro i
    rw [hrecords]
    exact .inl rfl
  · intro hdel i hi
    have hold : s.deleting = true := by rwa [he] at hdel
    rw [hlive, hs.none_of_deleting ha rfl hin hnot hold i] at hi
    cases hi
  · intro hint i
    rw [hlive]
    exact hs.interrupted (by rwa [he] at hint) i
  · rw [he]
    exact hknows

/-- A step that only goes on. -/
theorem Inv.think (hpc : s.pc a = c₀) (hin : c₀.inside = true) (hnot : ∀ i, c₀ ≠ .clearPid i true)
    (howns : ∀ i, c.owns = some i → c₀.owns = some i) (hknows : Knows s a c) :
    Inv ((s.apply a .skip).goto a c) :=
  hs.keep ha hpc hin hnot s.data s.control s.sole howns hknows rfl

/-! ### The table -/

omit hs ha in
theorem State.live_wipe (h : (s.apply a (.pid i 0)).live j = true) : j ≠ i ∧ s.live j = true := by
  have hji : j ≠ i := by
    rintro rfl
    rw [State.live_of_pid_eq_zero (by simp [State.apply])] at h
    cases h
  simp only [State.live, State.apply, update_of_ne hji] at h
  exact ⟨hji, h⟩

/-- A pid is cleared: that of a dead process, or the object's own. -/
theorem Inv.wipe (hpc : s.pc a = c₀) (hin : c₀.inside = true)
    (hi : c₀.owns = some i ∨ s.live i = false)
    (howns : ∀ j, c.owns = some j → c₀.owns = some j ∧ j ≠ i)
    (hdeleting : s.deleting = true → s.OnlyLive i) (hknows : Knows (s.apply a (.pid i 0)) a c) :
    Inv ((s.apply a (.pid i 0)).goto a c) := by
  subst hpc
  refine hs.inside ha hin (fun _ => hs.lock a ha hin) ?_ ?_ ?_ ?_ hknows
  · intro j hj
    obtain ⟨hown, hji⟩ := howns j hj
    refine ⟨?_, .inl hown⟩
    simp only [State.apply, update_of_ne hji]
    exact hs.owned a j ha hown
  · intro j
    obtain rfl | hji := eq_or_ne j i
    · exact .inr hi
    · exact .inl (update_of_ne hji _ _)
  · intro hdel j hj
    obtain ⟨hji, hlive⟩ := State.live_wipe hj
    exact absurd (hdeleting hdel j hlive) hji
  · intro hint j
    by_contra hj
    obtain ⟨-, hlive⟩ := State.live_wipe (by simpa using hj)
    have hold : s.interrupted = true := by simpa [State.apply] using hint
    simp [hs.interrupted hold j] at hlive

omit hs ha in
theorem State.live_stamp {v : ℕ} (hi : (s.records i).pid = 0) :
    (s.apply a (.startStamp i v)).live j = s.live j := by
  obtain rfl | hji := eq_or_ne j i
  · rw [State.live_of_pid_eq_zero hi, State.live_of_pid_eq_zero (by simpa [State.apply] using hi)]
  · simp [State.live, State.apply, update_of_ne hji]

/-- The stamp of a free record is written. -/
theorem Inv.stamp {v : ℕ} (hpc : s.pc a = c₀) (hin : c₀.inside = true)
    (hnot : ∀ j, c₀ ≠ .clearPid j true) (hi : (s.records i).pid = 0)
    (howns : ∀ j, c.owns = some j → c₀.owns = some j)
    (hknows : Knows (s.apply a (.startStamp i v)) a c) :
    Inv ((s.apply a (.startStamp i v)).goto a c) := by
  subst hpc
  refine hs.inside ha hin (fun _ => hs.lock a ha hin) ?_ ?_ ?_ ?_ hknows
  · intro j hj
    have hown := hs.owned a j ha (howns j hj)
    refine ⟨?_, .inl (howns j hj)⟩
    have hji : j ≠ i := by
      rintro rfl
      rw [hown] at hi
      exact a.process.pid_ne_zero hi
    simp only [State.apply, update_of_ne hji]
    exact hown
  · intro j
    obtain rfl | hji := eq_or_ne j i
    · exact .inr (.inr (State.live_of_pid_eq_zero hi))
    · exact .inl (update_of_ne hji _ _)
  · intro hdel j hj
    rw [State.live_stamp hi, hs.none_of_deleting ha rfl hin hnot hdel j] at hj
    cases hj
  · intro hint j
    rw [State.live_stamp hi]
    exact hs.interrupted hint j

/-- A free record is claimed. -/
theorem Inv.claim (hpc : s.pc a = .claimPid i) :
    Inv ((s.apply a (.pid i a.process.pid)).goto a (.leave (.attached i))) := by
  have hin : (s.pc a).inside = true := by rw [hpc]; rfl
  obtain ⟨hdel, hpid, hstamp⟩ := hs.knows_of ha hpc
  refine hs.inside ha hin (fun _ => hs.lock a ha hin) ?_ ?_ ?_ ?_ trivial
  · intro j hj
    obtain rfl : i = j := Option.some.inj hj
    refine ⟨?_, .inr hpid⟩
    simp [State.apply, Record.ofProcess, hstamp]
  · intro j
    obtain rfl | hji := eq_or_ne j i
    · exact .inr (.inr (State.live_of_pid_eq_zero hpid))
    · exact .inl (update_of_ne hji _ _)
  · intro hdel'
    have hold : s.deleting = true := hdel'
    simp [hdel] at hold
  · intro hint
    simp [State.apply, a.process.pid_ne_zero] at hint

/-- The flag is set or cleared. -/
theorem Inv.flag {b : Bool} (hpc : s.pc a = c₀) (hin : c₀.inside = true)
    (howns : ∀ j, c.owns = some j → c₀.owns = some j)
    (hdeleting : b = true → ∀ j, s.live j = true → c = .clearPid j true)
    (hknows : Knows (s.apply a (.deleting b)) a c) : Inv ((s.apply a (.deleting b)).goto a c) := by
  subst hpc
  refine hs.inside ha hin (fun _ => hs.lock a ha hin) ?_ (fun _ => .inl rfl) hdeleting hs.interrupted
    hknows
  intro j hj
  exact ⟨hs.owned a j ha (howns j hj), .inl (howns j hj)⟩

end

/-! ### The count -/

theorem State.tally_zero (s : State k) (sum : ℕ) : s.Tally 0 sum := by
  simp [State.Tally]

theorem State.Tally.succ {sum : ℕ} (h : s.Tally x sum) (hx : x < k) :
    s.Tally (x + 1) (if s.live ⟨x, hx⟩ = true then sum + 1 else sum) := by
  by_cases hlive : s.live ⟨x, hx⟩ = true
  · rw [if_pos hlive]
    have hsub : (Finset.univ.filter fun i : Fin k => (i : ℕ) < x + 1 ∧ s.live i = true) ⊆
        insert ⟨x, hx⟩ (Finset.univ.filter fun i : Fin k => (i : ℕ) < x ∧ s.live i = true) := by
      intro i hi
      simp only [Finset.mem_filter, Finset.mem_univ, true_and, Finset.mem_insert, Fin.ext_iff] at hi ⊢
      rcases Nat.lt_succ_iff_lt_or_eq.1 hi.1 with hlt | heq
      · exact .inr ⟨hlt, hi.2⟩
      · exact .inl heq
    calc _ ≤ _ := Finset.card_le_card hsub
      _ ≤ _ := Finset.card_insert_le _ _
      _ ≤ sum + 1 := Nat.add_le_add_right h 1
  · rw [if_neg hlive]
    refine (Finset.card_le_card ?_).trans h
    intro i hi
    simp only [Finset.mem_filter, Finset.mem_univ, true_and] at hi ⊢
    refine ⟨?_, hi.2⟩
    have hne : i ≠ ⟨x, hx⟩ := by
      rintro rfl
      exact hlive hi.2
    have hval : (i : ℕ) ≠ x := fun heq => hne (Fin.ext heq)
    omega

theorem State.Tally.none (h : s.Tally x 0) (hx : ¬x < k) : s.NoneLive := by
  intro i
  by_contra hi
  have hmem : i ∈ Finset.univ.filter fun i : Fin k => (i : ℕ) < x ∧ s.live i = true := by
    simp only [Finset.mem_filter, Finset.mem_univ, true_and]
    exact ⟨by omega, by simpa using hi⟩
  have hpos := Finset.card_pos.2 ⟨i, hmem⟩
  have hle : _ ≤ 0 := h
  omega

theorem State.Tally.only {sum : ℕ} (h : s.Tally x sum) (hx : ¬x < k) (hsum : sum ≤ 1)
    (hi : s.live i = true) : s.OnlyLive i := by
  intro j hj
  have hle : (Finset.univ.filter fun i : Fin k => (i : ℕ) < x ∧ s.live i = true).card ≤ 1 :=
    le_trans h hsum
  refine Finset.card_le_one.1 hle j ?_ i ?_
  all_goals simp only [Finset.mem_filter, Finset.mem_univ, true_and]
  · exact ⟨by omega, hj⟩
  · exact ⟨by omega, hi⟩

theorem Stage.Counting.succ {sum : ℕ} (hs : Inv s) (h : w.Counting s x sum) (hx : x < k) :
    w.Counting s (x + 1) (if s.live ⟨x, hx⟩ = true then sum + 1 else sum) := by
  cases w with
  | recover =>
    refine ⟨h.1, fun hint => ?_⟩
    rw [hs.interrupted hint ⟨x, hx⟩]
    exact h.2 hint
  | release i =>
    intro hsole
    obtain ⟨honly, hsum⟩ := h hsole
    refine ⟨honly, ?_⟩
    by_cases hlive : s.live ⟨x, hx⟩ = true
    · have hxi := congrArg Fin.val (honly _ hlive)
      simp only at hxi
      rw [if_pos hlive, if_pos (by omega)]
      rw [if_neg (by omega)] at hsum
      omega
    · split_ifs at hsum ⊢ <;> omega
  | claim | abort => trivial

section

variable (hs : Inv s) (ha : s.Live a) (h : s.next a ch = some (e, c))

include hs ha h

theorem Inv.scavengeStep (hpc : s.pc a = .scavenge w x) : Inv ((s.apply a e).goto a c) := by
  have hknows : w.attaching = true → s.deleting = false := hs.knows_of ha hpc
  simp only [State.next, hpc] at h
  split_ifs at h with hx hdead
  · cases h
    refine hs.wipe ha hpc rfl (.inr hdead.2) ?_ ?_ ?_
    · intro j hj
      refine ⟨hj, ?_⟩
      rintro rfl
      have hown := hs.owned a _ ha (by rw [hpc]; exact hj)
      rw [State.live_ofProcess ha hown] at hdead
      cases hdead.2
    · intro hdel j hj
      rw [hs.none_of_deleting ha hpc rfl nofun hdel j] at hj
      cases hj
    · exact ⟨by simp [State.apply], hknows⟩
  · cases h
    exact hs.think ha hpc rfl nofun (fun _ => id) hknows
  · cases w with
    | recover =>
      cases h
      exact hs.think ha hpc rfl nofun (fun _ => id) ⟨s.tally_zero 0, hknows rfl, fun _ => rfl⟩
    | claim =>
      cases h
      exact hs.think ha hpc rfl nofun (fun _ => id) (hknows rfl)
    | abort =>
      cases h
      exact hs.think ha hpc rfl nofun (fun _ => id) ⟨s.tally_zero 0, trivial⟩
    | release i =>
      cases h
      refine hs.keep ha hpc rfl nofun s.data s.control
        (decide (∀ j, s.live j = true → j = i)) (fun _ => id) ?_ rfl
      refine ⟨s.tally_zero 0, fun hsole => ⟨?_, Nat.zero_le _⟩⟩
      intro j
      exact of_decide_eq_true hsole j

theorem Inv.countStep {sum : ℕ} (hpc : s.pc a = .count w x sum) : Inv ((s.apply a e).goto a c) := by
  obtain ⟨htally, hcounting⟩ := hs.knows_of ha hpc
  simp only [State.next, hpc] at h
  by_cases hx : x < k
  · rw [dif_pos hx] at h
    cases h
    exact hs.think ha hpc rfl nofun (fun _ => id) ⟨htally.succ hx, hcounting.succ hs hx⟩
  · rw [dif_neg hx] at h
    cases h
    cases w with
    | recover =>
      obtain rfl | hsum := eq_or_ne sum 0
      · exact hs.think ha hpc rfl nofun (fun _ => id) ⟨htally.none hx, fun _ => hcounting.1⟩
      · simp only [Stage.counted, if_neg hsum]
        exact hs.think ha hpc rfl nofun (fun _ => id)
          ⟨hcounting.1, fun hint => absurd (hcounting.2 hint) hsum⟩
    | claim => exact hs.think ha hpc rfl nofun nofun hcounting
    | abort =>
      obtain rfl | hsum := eq_or_ne sum 0
      · exact hs.think ha hpc rfl nofun (fun _ => id) ⟨htally.none hx, nofun⟩
      · simp only [Stage.counted, if_neg hsum]
        exact hs.think ha hpc rfl nofun (fun _ => id) trivial
    | release i =>
      have hlive := State.live_ofProcess ha (hs.owned a i ha (by rw [hpc]; rfl))
      by_cases hsum : sum ≤ 1
      · simp only [Stage.counted, if_pos hsum]
        exact hs.think ha hpc rfl nofun (fun _ => id) (htally.only hx hsum hlive)
      · simp only [Stage.counted, if_neg hsum]
        refine hs.think ha hpc rfl nofun (fun _ => id) ⟨nofun, fun hsole => ?_⟩
        obtain ⟨-, hle⟩ := hcounting hsole
        split_ifs at hle <;> omega

/-- **A step.** -/
theorem Inv.advance : Inv ((s.apply a e).goto a c) := by
  cases hpc : s.pc a
  case scavenge w x => exact hs.scavengeStep ha h hpc
  case count w x sum => exact hs.countStep ha h hpc
  all_goals
    have hknows := hs.knows_of ha hpc
    simp only [State.next, hpc] at h
  case idle | attached => cases h
  case wait release =>
    split_ifs at h with hfree
    cases h
    cases release with
    | none => exact hs.enter ha hpc rfl hfree nofun trivial
    | some i => exact hs.enter ha hpc rfl hfree (fun _ => id) nofun
  case deleting =>
    cases h
    by_cases hdel : s.deleting = true
    · rw [if_pos hdel]
      have hnone := hs.none_of_deleting ha hpc rfl nofun hdel
      exact hs.think ha hpc rfl nofun nofun ⟨hnone, nofun⟩
    · rw [if_neg hdel]
      exact hs.think ha hpc rfl nofun nofun fun _ => by simpa using hdel
  case scavengeStamp w j =>
    cases h
    exact hs.stamp ha hpc rfl nofun hknows.1 (fun _ => id) hknows.2
  case removeControl r =>
    cases h
    exact hs.keep ha hpc rfl nofun s.data false s.sole nofun
      ⟨hknows.1, rfl, hknows.2⟩ rfl
  case removeData r =>
    obtain ⟨hnone, hcontrol, hdel⟩ := hknows
    cases h
    refine hs.keep ha hpc rfl nofun false s.control s.sole ?_ ?_ rfl
    · cases r <;> exact nofun
    · cases r with
      | interrupted | again => exact ⟨hnone, hcontrol, rfl⟩
      | stale => exact ⟨hdel rfl, fun _ => ⟨rfl, hcontrol⟩⟩
      | aborted => trivial
      | final => exact ⟨hnone, nofun⟩
  case clearDeleting r =>
    obtain ⟨hnone, hcontrol, hdata⟩ := hknows
    cases h
    refine hs.flag ha hpc rfl ?_ nofun ?_
    · cases r <;> exact nofun
    · cases r with
      | interrupted => exact fun _ => rfl
      | _ => exact ⟨fun _ => ⟨hdata, hcontrol, rfl⟩, fun _ => rfl⟩
  case attachData =>
    split_ifs at h
    all_goals cases h
    · exact hs.think ha hpc rfl nofun nofun hknows.1
    · exact hs.think ha hpc rfl nofun nofun nofun
    · exact hs.keep ha hpc rfl nofun true s.control s.sole nofun hknows.1 rfl
  case attachControl =>
    split_ifs at h
    all_goals cases h
    · exact hs.think ha hpc rfl nofun nofun hknows
    · exact hs.think ha hpc rfl nofun nofun nofun
    · exact hs.keep ha hpc rfl nofun s.data true s.sole nofun hknows rfl
  case mapData =>
    cases h
    split_ifs
    · exact hs.think ha hpc rfl nofun nofun nofun
    · exact hs.think ha hpc rfl nofun nofun hknows
  case mapControl =>
    cases h
    split_ifs
    · exact hs.think ha hpc rfl nofun nofun nofun
    · exact hs.think ha hpc rfl nofun nofun fun _ => hknows
  case slot x =>
    split_ifs at h with hx hfree
    all_goals cases h
    · refine hs.stamp ha hpc rfl nofun hfree nofun ⟨hknows, ?_, ?_⟩
      · simpa [State.apply] using hfree
      · simp [State.apply]
    · exact hs.think ha hpc rfl nofun nofun hknows
    · exact hs.think ha hpc rfl nofun nofun nofun
  case claimPid i =>
    cases h
    exact hs.claim ha hpc
  case setDeleting i =>
    cases h
    refine hs.flag ha hpc rfl (fun _ => id) ?_ ⟨fun _ => hknows, fun _ => rfl⟩
    intro _ j hj
    rw [hknows j hj]
  case clearPid i final =>
    cases h
    refine hs.wipe ha hpc rfl (.inl rfl) nofun ?_ ⟨by simp [State.apply], ?_, hknows.2⟩
    · intro hdel j hj
      obtain ⟨b, hb, hbpc⟩ := hs.deleting hdel j hj
      obtain rfl := hs.excl ha (by rw [hpc]; rfl) hb (by rw [hbpc]; rfl)
      rw [hpc] at hbpc
      cases hbpc
      rfl
    · intro hfinal j
      by_contra hj
      obtain ⟨hji, hlive⟩ := State.live_wipe (by simpa using hj)
      exact hji (hknows.1 hfinal j hlive)
  case clearStamp i final =>
    obtain ⟨hpid, hnone, hsole⟩ := hknows
    cases h
    refine hs.stamp ha hpc rfl nofun hpid ?_ ?_
    · cases final <;> exact nofun
    · cases final with
      | true =>
        refine ⟨fun j => ?_, nofun⟩
        rw [State.live_stamp hpid]
        exact hnone rfl j
      | false => exact ⟨nofun, hsole⟩
  case leave x =>
    cases h
    refine hs.inside ha (by rw [hpc]; rfl) ?_ ?_ (fun _ => .inl rfl) ?_ hs.interrupted ?_
    · cases x <;> exact nofun
    · intro i hi
      have hown : (s.pc a).owns = some i := by
        rw [hpc]
        cases x with
        | attached j => exact hi
        | _ => cases hi
      exact ⟨hs.owned a i ha hown, .inl hown⟩
    · intro hdel i hi
      have hold := hs.none_of_deleting ha hpc rfl nofun hdel i
      exact absurd (hold.symm.trans hi) (by simp)
    · cases x <;> trivial
  case anchor | dataExists | controlExists | visible =>
    cases h
    split_ifs <;> exact hs.stay ha hpc rfl s.anchor rfl nofun
  case create =>
    split_ifs at h
    · cases h
      exact hs.stay ha hpc rfl s.anchor rfl nofun
    · cases h
      exact hs.stay ha hpc rfl true rfl nofun

end

/-! ### Crashes -/

theorem State.live_insert {p : Process} (h : (s.records i).live (insert p s.exited) = true) :
    s.live i = true ∧ .ofProcess p ≠ s.records i := by
  simp only [Record.live, Bool.and_eq_true, decide_eq_true_eq, Finset.forall_mem_insert] at h
  simp only [State.live, Record.live, Bool.and_eq_true, decide_eq_true_eq]
  exact ⟨⟨h.1, h.2.2⟩, h.2.1⟩

/-- What the holder knows survives the death of others. -/
theorem Knows.shrink {exited : Finset Process}
    (hlive : ∀ i, State.live { s with exited := exited } i = true → s.live i = true)
    (h : Knows s a c) : Knows { s with exited := exited } a c := by
  have hnone : s.NoneLive → State.NoneLive { s with exited := exited } := by
    intro hs i
    by_contra hi
    have hi' := hlive i (by simpa using hi)
    simp [hs i] at hi'
  have honly : ∀ i, s.OnlyLive i → State.OnlyLive { s with exited := exited } i :=
    fun i hs j hj => hs j (hlive j hj)
  have htally : ∀ x sum, s.Tally x sum → State.Tally { s with exited := exited } x sum := by
    intro x sum hs
    refine (Finset.card_le_card ?_).trans hs
    intro i hi
    simp only [Finset.mem_filter, Finset.mem_univ, true_and] at hi ⊢
    exact ⟨hi.1, hlive i hi.2⟩
  cases c with
  | count w x sum =>
    refine ⟨htally x sum h.1, ?_⟩
    cases w with
    | release i => exact fun hsole => ⟨honly i (h.2 hsole).1, (h.2 hsole).2⟩
    | _ => exact h.2
  | removeControl r | removeData r | clearDeleting r => exact ⟨hnone h.1, h.2⟩
  | setDeleting i => exact honly i h
  | clearPid i final => exact ⟨fun hf => honly i (h.1 hf), h.2⟩
  | clearStamp i final => exact ⟨h.1, fun hf => hnone (h.2.1 hf), h.2.2⟩
  | leave x => cases x <;> exact h
  | _ => exact h

/-- **A crash.** -/
theorem Inv.die (hs : Inv s) (p : Process) : Inv (s.die p) := by
  have hlive : ∀ b, (s.die p).Live b → s.Live b ∧ b.process ≠ p := by
    intro b hb
    have hb : b.process ∉ insert p s.exited := hb
    rw [Finset.mem_insert, not_or] at hb
    exact ⟨hb.2, hb.1⟩
  have hrecord : ∀ i, (s.die p).live i = true → s.live i = true ∧ .ofProcess p ≠ s.records i :=
    fun i hi => State.live_insert hi
  constructor
  · intro b hb hin
    exact hs.lock b (hlive b hb).1 hin
  · intro b i hb hi
    exact hs.owned b i (hlive b hb).1 hi
  · intro b d i hb hd
    exact hs.unique b d i (hlive b hb).1 (hlive d hd).1
  · intro hdel i hi
    obtain ⟨hold, hne⟩ := hrecord i hi
    obtain ⟨b, hb, hpc⟩ := hs.deleting hdel i hold
    refine ⟨b, ?_, hpc⟩
    -- its record is live, so it is not the one that dies
    have hown := hs.owned b i hb (by rw [hpc]; rfl)
    intro hmem
    rcases Finset.mem_insert.1 hmem with hbp | hold
    · exact hne (by rw [hown, hbp])
    · exact hb hold
  · intro hint i
    by_contra hi
    obtain ⟨hold, -⟩ := hrecord i (by simpa using hi)
    simp only [State.die, Bool.or_eq_true, Bool.and_eq_true, decide_eq_true_eq] at hint
    rcases hint with hint | ⟨-, hnone⟩
    · simp [hs.interrupted hint i] at hold
    · exact hi (hnone i)
  · intro b hb
    obtain ⟨hb', hbp⟩ := hlive b hb
    by_cases hnew : (s.holder.any fun a => a.process = p && (s.pc a).detaching) = true
    · -- the holder has died, so nobody else is inside
      obtain ⟨a, ha, hap⟩ := (Option.any_eq_true _ _).1 hnew
      refine knows_of_outside ?_
      change (s.pc b).inside = false
      by_contra hin
      have hholder := hs.lock b hb' (by simpa using hin)
      obtain rfl : a = b := Option.mem_unique ha hholder
      simp only [Bool.and_eq_true, decide_eq_true_eq] at hap
      exact hbp hap.1
    · have hsame : s.die p = { s with exited := insert p s.exited } := by
        simp only [State.die, Bool.eq_false_of_not_eq_true hnew, Bool.false_and, Bool.or_false]
      have hknows := hs.knows b hb'
      rw [hsame]
      exact hknows.shrink fun i hi => (State.live_insert hi).1

end

variable {s : State k}

theorem Inv.step {t : State k} {act : Action} (hs : Inv s) (h : s.step act = some t) : Inv t := by
  cases act with
  | attach a =>
    obtain ⟨ha, rfl⟩ := Machine.of_guard h
    exact hs.stay ha.1 ha.2 rfl s.anchor rfl nofun
  | detach a =>
    simp only [State.step] at h
    split_ifs at h with ha
    split at h
    · next i hpc =>
      cases h
      exact hs.stay ha hpc rfl s.anchor rfl fun _ => id
    · cases h
  | advance a ch =>
    simp only [State.step] at h
    split_ifs at h with ha
    obtain ⟨⟨e, c⟩, hnext, rfl⟩ := Option.map_eq_some_iff.1 h
    exact hs.advance ha hnext
  | exit p =>
    cases h
    exact hs.die p

/-- The invariant, over every interleaving and every crash. -/
theorem reachable_inv (h : (machine k).Reachable s) : Inv s := by
  refine h.invariant ?_ fun _ _ _ hs hstep => hs.step hstep
  rintro _ rfl
  exact inv_initial

/-! ### The files -/

/-- The files a step removes. -/
def State.Removes (s t : State k) : Prop :=
  s.data = true ∧ t.data = false ∨ s.control = true ∧ t.control = false

/-- Nothing is left of the ring. -/
def State.Clean (s : State k) : Prop := s.data = false ∧ s.control = false ∧ s.deleting = false

theorem State.Removes.effect {a : Agent} {e : Effect k} {c : Pc k}
    (h : s.Removes ((s.apply a e).goto a c)) : e = .data false ∨ e = .control false := by
  cases e <;> simp_all [State.Removes, State.apply, State.goto]

theorem State.Removes.noneLive {t : State k} {act : Action} (h : s.Removes t) (hs : Inv s)
    (hstep : s.step act = some t) : s.NoneLive := by
  cases act with
  | attach a =>
    obtain ⟨-, rfl⟩ := Machine.of_guard hstep
    simp [State.Removes, State.goto] at h
  | detach a =>
    simp only [State.step] at hstep
    split_ifs at hstep
    split at hstep
    · cases hstep
      simp [State.Removes, State.goto] at h
    · cases hstep
  | exit p =>
    cases hstep
    simp [State.Removes, State.die] at h
  | advance a ch =>
    simp only [State.step] at hstep
    split_ifs at hstep with ha
    obtain ⟨⟨e, c⟩, hnext, rfl⟩ := Option.map_eq_some_iff.1 hstep
    have heffect := h.effect
    cases hpc : s.pc a with
    | removeControl r | removeData r => exact (hs.knows_of ha hpc).1
    | scavenge w x =>
      simp only [State.next, hpc] at hnext
      cases w <;> grind [State.scavenged]
    | _ =>
      simp only [State.next, hpc] at hnext
      grind

/-- **The files of a ring.** No file is removed while a live record exists. After a crash in a detach
that leaves no live record, the next attach that succeeds starts without files and with `deleting`
cleared. A detach that finds no other live record has removed both files when it ends. -/
theorem files_kept {s : State k} (hs : (machine k).Reachable s) :
    (∀ act t, s.step act = some t → s.Removes t → s.NoneLive) ∧
      (∀ a, s.Live a → s.pc a = .attachData → s.interrupted = true → s.Clean) ∧
      ∀ a final, s.Live a → s.pc a = .leave (.detached final) → s.sole = true → s.Clean := by
  have hinv := reachable_inv hs
  refine ⟨fun act t hstep hr => hr.noneLive hinv hstep, fun a ha hpc hint => ?_,
    fun a final ha hpc hsole => ?_⟩
  · obtain ⟨hdel, hfiles⟩ := hinv.knows_of ha hpc
    exact ⟨(hfiles hint).1, (hfiles hint).2, hdel⟩
  · obtain ⟨hfinal, hsole'⟩ := hinv.knows_of ha hpc
    exact hfinal (hsole' hsole)

/-- A process that attaches first, and detaches. -/
def leaver : Agent := ⟨.numbered 0, 0⟩

def other : Agent := ⟨.numbered 1, 0⟩

/-- The object executes `n` operations, and no file operation fails. -/
def run (a : Agent) (n : ℕ) : List Action := List.replicate n (.advance a ⟨false⟩)

/-- The leaver dies when it has set `deleting`; the other process attaches. -/
theorem files_kept_after_crash : ∃ s : State 2, (machine 2).Reachable s ∧ s.pc other = .attachData ∧
    s.interrupted = true ∧ s.Clean := by
  obtain ⟨s, hs, hpc, hlive, hint⟩ : ∃ s : State 2, (machine 2).Reachable s ∧
      s.pc other = .attachData ∧ other.process ∉ s.exited ∧ s.interrupted = true :=
    Machine.exists_reachable_of_exec
      (.attach leaver :: run leaver 25 ++ .detach leaver :: run leaver 8 ++ .exit leaver.process ::
        .attach other :: run other 16)
      rfl (by decide +kernel)
  exact ⟨s, hs, hpc, hint, (files_kept hs).2.1 other hlive hpc hint⟩

/-- Both are attached. The leaver counts two live records, and the other process dies: the leaver now
clears the last live record, and its detach ends with both files in place. -/
theorem detach_leaves_files : ∃ s t : State 2, (machine 2).Reachable s ∧
    leaver.process ∉ s.exited ∧ s.pc leaver = .clearPid 0 false ∧ s.live 0 = true ∧ s.live 1 = false ∧
    (machine 2).Steps s t ∧ t.pc leaver = .idle ∧ (∀ i, t.live i = false) ∧ t.data = true ∧
    t.control = true := by
  obtain ⟨s, hs, hlive, hpc, h0, h1, hrest⟩ : ∃ s : State 2, (machine 2).Reachable s ∧
      leaver.process ∉ s.exited ∧ s.pc leaver = .clearPid 0 false ∧ s.live 0 = true ∧
      s.live 1 = false ∧
      (((machine 2).exec s (run leaver 3)).any fun t =>
        t.pc leaver = .idle ∧ (∀ i, t.live i = false) ∧ t.data = true ∧ t.control = true) = true :=
    Machine.exists_reachable_of_exec
      (.attach leaver :: run leaver 25 ++ .attach other :: run other 21 ++
        .detach leaver :: run leaver 7 ++ [.exit other.process])
      rfl (by decide +kernel)
  obtain ⟨t, hst, hend⟩ := Machine.exists_steps_of_exec _ hrest
  exact ⟨s, t, hs, hlive, hpc, h0, h1, hst, hend⟩

end Sintra.Ring.Lifecycle
