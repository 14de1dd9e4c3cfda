import Sintra.Lib.Laps
import Sintra.Ring.Snapshots

/-!
# What a reader of a ring keeps

The guard of a slot names one of eight octiles; `Config.anchor` is the octile of the line it stands for.
`ReaderOk` says of one reader that its ranges begin no earlier than there, and that the writer has not
got a lap ahead of it. It speaks of the reader, of its control point in the guards and of the state
words, so that there is one lemma for each thing that can happen to these:

* `ReaderOk.publish`, `ReaderOk.clear` — the writer publishes, or sees that an octile is not read.
-/

namespace Sintra.Ring.Snapshots

open Slots (Agent)
open Guards (Outcome Call Acquiring Untouched)

/-! ### Octiles of the line -/

namespace Config

variable (cfg : Config)

/-- The octile of a position, counted from sequence number zero. -/
def octile (x : ℤ) : ℤ := x / cfg.octileElements

/-- The octile of the first of the trailing elements. -/
def tail (a : Agent) (sequence : ℕ) : ℤ := cfg.octile (sequence - cfg.maxTrailingElements a)

/-- The octile of the line that a slot guards with octile `q` of the ring. -/
def anchor (a : Agent) (sequence : ℕ) (q : Octile) : ℤ :=
  Laps.anchor 8 (cfg.tail a sequence) (q.val : ℤ)

variable {cfg} {a : Agent}

theorem octileElements_pos_int : (0 : ℤ) < cfg.octileElements :=
  Int.natCast_pos.2 cfg.octileElements_pos

theorem octile_mono {x y : ℤ} (h : x ≤ y) : cfg.octile x ≤ cfg.octile y :=
  Int.ediv_le_ediv octileElements_pos_int h

theorem octile_natCast (x : ℕ) : cfg.octile x = (x / cfg.octileElements : ℕ) := rfl

theorem octileOfIndex_val {x : ℕ} :
    (octileOfIndex x cfg.numElements).val = x / cfg.octileElements % 8 := by
  have h : 8 * x / cfg.numElements = x / cfg.octileElements :=
    Nat.mul_div_mul_left x cfg.octileElements (by decide)
  show 8 * x / cfg.numElements % 8 = _
  rw [h]

theorem octileOf_val (x : ℕ) : (cfg.octileOf x).val = x / cfg.octileElements % 8 := by
  show (octileOfIndex (x % cfg.numElements) cfg.numElements).val = _
  rw [octileOfIndex_val]
  show x % (8 * cfg.octileElements) / cfg.octileElements % 8 = _
  rw [Nat.mod_mul_left_div_self, Nat.mod_mod]

theorem trailingOctileOf_val (x : ℕ) : ((cfg.trailingOctileOf a x).val : ℤ) = cfg.tail a x % 8 := by
  show ((octileOfIndex (modPosI64 (x - cfg.maxTrailingElements a) cfg.numElements)
    cfg.numElements).val : ℤ) = _
  have hpos : (0 : ℤ) < cfg.numElements := by
    have := cfg.octileElements_pos
    unfold numElements
    omega
  have hindex : ((modPosI64 (x - cfg.maxTrailingElements a) cfg.numElements : ℕ) : ℤ) =
      (x - cfg.maxTrailingElements a) % (8 * cfg.octileElements) :=
    Int.toNat_of_nonneg (Int.emod_nonneg _ hpos.ne')
  rw [octileOfIndex_val, Int.natCast_emod, Int.natCast_ediv, hindex,
    Laps.block_index _ (by decide) octileElements_pos_int]
  exact Int.emod_emod _ _

theorem tail_mono {x y : ℕ} (h : x ≤ y) : cfg.tail a x ≤ cfg.tail a y :=
  octile_mono (by omega)

theorem tail_le (x : ℕ) : cfg.tail a x ≤ (x / cfg.octileElements : ℕ) := by
  rw [← octile_natCast]
  exact octile_mono (by omega)

/-- A head that was confirmed is less than a lap ahead of its trailing elements. -/
theorem le_tail_add {cleared leading : ℕ} (h : cleared ≤ leading / cfg.octileElements + 1) :
    (cleared : ℤ) ≤ cfg.tail a leading + 7 := by
  have htrailing := cfg.maxTrailingElements_le a
  have hle : cfg.octile ((leading : ℤ) - 6 * cfg.octileElements) ≤ cfg.tail a leading :=
    octile_mono (by omega)
  have hsub : cfg.octile ((leading : ℤ) - 6 * cfg.octileElements) = cfg.octile leading - 6 :=
    Int.sub_mul_ediv_right _ _ octileElements_pos_int.ne'
  rw [hsub, octile_natCast] at hle
  omega

theorem anchor_le_tail (x : ℕ) (q : Octile) : cfg.anchor a x q ≤ cfg.tail a x :=
  Laps.anchor_le (by decide)

theorem anchor_trailing (x : ℕ) : cfg.anchor a x (cfg.trailingOctileOf a x) = cfg.tail a x :=
  Laps.anchor_self (trailingOctileOf_val x) (by decide)

end Config

/-! ### Guards that keep the writer out -/

section

variable (cfg : Config) (a : Agent)

/-- The slot guards an octile, and the writer is less than a lap ahead of it. -/
def Safe (cleared sequence : ℕ) (w : ReaderState) : Prop :=
  ∃ q, w.guard = some q ∧ (cleared : ℤ) ≤ cfg.anchor a sequence q + 7

/-- The slot is EVICTED, or it keeps the writer out. -/
def Attached (cleared sequence : ℕ) (w : ReaderState) : Prop :=
  w.status = .evicted ∨ Safe cfg a cleared sequence w

/-- The slot keeps the writer out of a range of published elements. -/
def Covered (cleared leading sequence : ℕ) (w : ReaderState) (h : Range) : Prop :=
  ∃ q, w.guard = some q ∧ (cleared : ℤ) ≤ cfg.anchor a sequence q + 7 ∧
    cfg.anchor a sequence q ≤ cfg.octile h.first ∧ h.last ≤ leading

end

section

variable {cfg : Config} {a : Agent} {cleared leading sequence sequence' : ℕ} {w w' : ReaderState}
  {h : Range}

theorem Covered.safe (hc : Covered cfg a cleared leading sequence w h) :
    Safe cfg a cleared sequence w := by
  obtain ⟨q, hguard, hlap, -, -⟩ := hc
  exact ⟨q, hguard, hlap⟩

theorem Safe.guardPresent (hs : Safe cfg a cleared sequence w) : w.guardPresent = true := by
  obtain ⟨q, hguard, -⟩ := hs
  by_contra hpresent
  simp [ReaderState.guard, hpresent] at hguard

/-- The reading sequence may move up to the head without a change of the anchor. -/
theorem anchor_forward {q : Octile} (hlap : (cleared : ℤ) ≤ cfg.anchor a sequence q + 7)
    (hle : sequence ≤ sequence') (hhead : sequence' / cfg.octileElements ≤ cleared) :
    cfg.anchor a sequence' q = cfg.anchor a sequence q := by
  refine Laps.anchor_congr (by decide) (Config.tail_mono hle) ?_
  have htail : cfg.tail a sequence' ≤ (sequence' / cfg.octileElements : ℕ) := Config.tail_le sequence'
  change (cleared : ℤ) ≤ Laps.anchor 8 (cfg.tail a sequence) q.val + 7 at hlap
  omega

theorem Covered.forward (hc : Covered cfg a cleared leading sequence w h)
    (hle : sequence ≤ sequence') (hhead : sequence' / cfg.octileElements ≤ cleared) :
    Covered cfg a cleared leading sequence' w h := by
  obtain ⟨q, hguard, hlap, hfirst, hlast⟩ := hc
  have hanchor := anchor_forward hlap hle hhead
  exact ⟨q, hguard, by rwa [hanchor], by rwa [hanchor], hlast⟩

theorem Safe.forward (hs : Safe cfg a cleared sequence w) (hle : sequence ≤ sequence')
    (hhead : sequence' / cfg.octileElements ≤ cleared) : Safe cfg a cleared sequence' w := by
  obtain ⟨q, hguard, hlap⟩ := hs
  exact ⟨q, hguard, by rwa [anchor_forward hlap hle hhead]⟩

/-- A guard for the trailing elements of the reading sequence. -/
theorem Safe.trailing (hguard : w.guard = some (cfg.trailingOctileOf a sequence))
    (hlap : (cleared : ℤ) ≤ cfg.tail a sequence + 7) : Safe cfg a cleared sequence w :=
  ⟨_, hguard, by rwa [Config.anchor_trailing]⟩

/-- The guard moves up to the trailing elements of the reading sequence. -/
theorem Safe.migrate (hs : Safe cfg a cleared sequence w)
    (hguard : w'.guard = some (cfg.trailingOctileOf a sequence)) : Safe cfg a cleared sequence w' := by
  obtain ⟨q, -, hlap⟩ := hs
  have hanchor : cfg.anchor a sequence q ≤ cfg.tail a sequence := Config.anchor_le_tail sequence q
  exact .trailing hguard (by omega)

end

/-! ### The invariant of a reader -/

/-- The call is only made between `start_reading` and `done_reading`. -/
def Caller.required : Caller → Bool
  | .produceRange => true
  | _ => false

namespace Pc

/-- Between calls, or in a call that keeps the guard. -/
def settled : Pc → Bool
  | .idle | .wait | .eviction _ | .produce | .migrate _ | .copy => true
  | _ => false

/-- Settled, and in no operation on the guard. -/
def calm : Pc → Bool
  | .idle | .wait | .eviction _ | .produce => true
  | _ => false

/-- The reader has called `start_reading`. -/
def required : Pc → Bool
  | .start _ | .startGuard _ _ | .startStatus _ _ _ | .startRelease _ | .wait | .produce | .copy =>
    true
  | .eviction c | .reattach c | .resume c | .resumeHead c | .resumeGuard c | .resumeRelease c =>
    c.required
  | _ => false

/-- In `done_reading_new_data`: what is before the trailing elements is given back. -/
def trims : Pc → Bool
  | .eviction .doneReadingNewData => true
  | .migrate _ => true
  | _ => false

theorem settled_of_calm {p : Pc} (h : p.calm = true) : p.settled = true := by
  cases p <;> first | rfl | cases h

end Pc

section

variable {n : ℕ} (cfg : Config) (a : Agent) (cleared leading : ℕ) (c : Guards.Pc n)
  (slots : Fin n → ReaderState)

/-- The slot of the reader is EVICTED or keeps the writer out. -/
def HasGuard (sequence : ℕ) : Prop :=
  ∃ i, c.slot = some i ∧ Attached cfg a cleared sequence (slots i)

/-- What a reader knows where it stands. -/
def Program (r : Reader) : Pc → Prop
  | .start num => num ≤ cfg.maxTrailingElements a
  | .startGuard num o => num ≤ cfg.maxTrailingElements a ∧ Acquiring slots r.stopping o false c
  | .startStatus num _ confirmed =>
    num ≤ cfg.maxTrailingElements a ∧ confirmed ≤ leading ∧
      ∃ i out, c = .owns i out ∧ Attached cfg a cleared confirmed (slots i)
  | .startRelease num => num ≤ cfg.maxTrailingElements a
  | .reattach _ => r.reading = false
  | .resumeGuard _ => Acquiring slots r.stopping r.trailingOctile true c
  | .migrate o =>
    Acquiring slots r.stopping o false c ∧ o = cfg.trailingOctileOf a r.readingSequence
  | .copy => ∃ i, Guards.Copying i c
  | _ => True

/-- The invariant of a reader: the writer has cleared the octiles up to `cleared` and published the
elements before `leading`. -/
structure ReaderOk (r : Reader) : Prop where
  held : ∀ h ∈ r.held, h.evicted = false → ∃ i, c.slot = some i ∧
    Covered cfg a cleared leading r.readingSequence (slots i) h
  loose : (r.reading && r.pc.settled) = false → ∀ h ∈ r.held, h.evicted = true
  /-- Only a reader that is to stop may have failed to get its guard back. -/
  session : r.reading = true → r.pc.settled = true → r.stopping = true ∨
    HasGuard cfg a cleared c slots r.readingSequence
  urgent : r.reading = true → r.pc.settled = true → r.pc = .produce ∨ c.pending ≠ none →
    HasGuard cfg a cleared c slots r.readingSequence
  trimmed : r.pc.trims = true → ∀ h ∈ r.held, h.evicted = false →
    cfg.tail a r.readingSequence ≤ cfg.octile h.first
  required : r.pc.required = true → r.reading = true
  calm : r.reading = true → r.pc.calm = true → ∃ i out, c = .owns i out
  program : Program cfg a cleared leading c slots r r.pc

end

/-- Where a reader is after it has called an operation on its guard. -/
def begun {n : ℕ} (i : Fin n) (out : Outcome) : Option Call → Guards.Pc n
  | some (.acquireGuard o allowEvicted) => .acquire i o allowEvicted
  | some .releaseGuard => .release i
  | some .withCopyingMark => .copy i
  | some .doneReading => .wait (.done i)
  | some .destroy => .wait (.retire i)
  | some (.tryRollback o) => .wait (.rollback i o)
  | _ => .owns i out

section

variable {n : ℕ} {cfg : Config} {a : Agent} {cleared leading : ℕ} {c c' : Guards.Pc n}
  {slots slots' : Fin n → ReaderState} {r r' : Reader} {i : Fin n} {out : Outcome} {p : Pc} {k : Caller}
  {op : Option Call} {giveUp : Bool}

/-- What the reader knows is still true when the words that it is about have changed. -/
theorem Program.map {cleared' leading' : ℕ} {stopping : Bool} {held : List Range}
    (h : Program cfg a cleared leading c slots r p) (hle : leading ≤ leading')
    (hacquiring : ∀ o allowEvicted, Acquiring slots r.stopping o allowEvicted c →
      Acquiring slots' stopping o allowEvicted c')
    (hattached : ∀ i out sequence, c = .owns i out → Attached cfg a cleared sequence (slots i) →
      c' = .owns i out ∧ Attached cfg a cleared' sequence (slots' i))
    (hcopying : ∀ i, Guards.Copying i c → Guards.Copying i c') :
    Program cfg a cleared' leading' c' slots' { r with stopping := stopping, held := held } p := by
  cases p with
  | startGuard num o => exact ⟨h.1, hacquiring _ _ h.2⟩
  | startStatus num o confirmed =>
    obtain ⟨hnum, hconfirmed, i, out, howns, hslot⟩ := h
    obtain ⟨howns', hslot'⟩ := hattached i out confirmed howns hslot
    exact ⟨hnum, hconfirmed.trans hle, i, out, howns', hslot'⟩
  | resumeGuard k => exact hacquiring _ _ h
  | migrate o => exact ⟨hacquiring _ _ h.1, h.2⟩
  | copy =>
    obtain ⟨i, hi⟩ := h
    exact ⟨i, hcopying i hi⟩
  | _ => exact h

/-- A reader that holds nothing but ranges it has lost, and is not settled. -/
theorem ReaderOk.of_loose (hall : ∀ h ∈ r.held, h.evicted = true)
    (hloose : (r.reading && r.pc.settled) = false)
    (hrequired : r.pc.required = true → r.reading = true)
    (hprogram : Program cfg a cleared leading c slots r r.pc) :
    ReaderOk cfg a cleared leading c slots r where
  held h hh hfalse := by simp [hall h hh] at hfalse
  loose _ := hall
  session hreading hsettled := by simp [hreading, hsettled] at hloose
  urgent hreading hsettled := by simp [hreading, hsettled] at hloose
  trimmed _ h hh hfalse := by simp [hall h hh] at hfalse
  required := hrequired
  calm hreading hcalm := by simp [hreading, Pc.settled_of_calm hcalm] at hloose
  program := hprogram

/-- `handle_eviction` has nothing to give to a reader that has lost all it held. -/
theorem ReaderOk.evicted (hall : ∀ h ∈ r.held, h.evicted = true)
    (hrequired : k.required = true → r.reading = true)
    (hsession : r.reading = true → r.stopping = true ∨
      HasGuard cfg a cleared (.owns i out) slots r.readingSequence) :
    ReaderOk cfg a cleared leading (.owns i out) slots { r with pc := .eviction k } where
  held h hh hfalse := by simp [hall h hh] at hfalse
  loose _ := hall
  session hreading _ := hsession hreading
  urgent _ _ hurgent := by
    rcases hurgent with hpc | hpending
    · cases hpc
    · exact absurd rfl hpending
  trimmed _ h hh hfalse := by simp [hall h hh] at hfalse
  required := hrequired
  calm _ _ := ⟨i, out, rfl⟩
  program := trivial

variable {sequence : ℕ}

/-- A reader that reads gets a range: what it held and the range are covered. -/
theorem ReaderOk.got {held : List Range} (hreading : r.reading = true)
    (hguarded : HasGuard cfg a cleared (.owns i out) slots sequence)
    (hheld : ∀ x ∈ held, x.evicted = false → ∃ j, (Guards.Pc.owns i out).slot = some j ∧
      Covered cfg a cleared leading sequence (slots j) x) (o : Octile) (result : Option (ℕ × ℕ)) :
    ReaderOk cfg a cleared leading (.owns i out) slots { r with
      pc := .idle, readingSequence := sequence, trailingOctile := o, result := result, held := held } := by
  refine ⟨hheld, fun hloose => ?_, fun _ _ => .inr hguarded, fun _ _ _ => hguarded, (nomatch ·),
    (nomatch ·), fun _ _ => ⟨i, out, rfl⟩, trivial⟩
  rw [hreading] at hloose
  cases hloose

theorem Reader.handled_goto (k : Caller) (b : Bool) (p : Pc) :
    { r with pc := p }.handled cfg a b k = r.handled cfg a b k := by
  cases k <;> rfl

/-- The writer has cleared the octile of the head, and at most one more. -/
structure Head (cfg : Config) (cleared leading : ℕ) : Prop where
  low : leading / cfg.octileElements ≤ cleared
  high : cleared ≤ leading / cfg.octileElements + 1

/-- A guard for the trailing elements of the head, as it is now. -/
theorem Head.attached (hhead : Head cfg cleared leading) {o : Octile} {w : ReaderState}
    (hguard : w.status = .evicted ∨ w.guard = some o) (ho : cfg.trailingOctileOf a leading = o) :
    Attached cfg a cleared leading w := by
  subst ho
  exact hguard.imp_right fun hguard => .trailing hguard (Config.le_tail_add hhead.high)

section

variable (h : ReaderOk cfg a cleared leading c slots r)

include h

/-- What the reader knows where it stands. -/
theorem ReaderOk.program_of (hpc : r.pc = p) :
    Program cfg a cleared leading c slots r p := hpc ▸ h.program

theorem ReaderOk.reading_of (hpc : r.pc = p) (hp : p.required = true) : r.reading = true :=
  h.required (hpc ▸ hp)

/-- What a reader holds that is not settled is lost. -/
theorem ReaderOk.all_lost (hpc : r.pc = p) (hp : p.settled = false) : ∀ x ∈ r.held, x.evicted = true :=
  h.loose (by rw [hpc, hp, Bool.and_false])

end

/-! ### The program of a reader -/

section

variable (h : ReaderOk cfg a cleared leading (.owns i out) slots r)

include h

/-- A settled reader goes on without a change to what it holds. -/
theorem ReaderOk.settle (hsettled : r.pc.settled = true) (p : Pc) (c' : Guards.Pc n)
    (hp : p.settled = true) (hslot : c'.slot = some i) (hpending : c'.pending = none)
    (hrequired : p.required = true → r.reading = true) (htrims : p.trims = true → r.pc.trims = true)
    (hproduce : p = .produce → r.stopping = false) (hcalm : p.calm = true → c' = .owns i out)
    {o : Octile} {flag : Bool} {result : Option (ℕ × ℕ)}
    (hprogram : Program cfg a cleared leading c' slots
      { r with pc := p, trailingOctile := o, evictedSinceLastWait := flag, result := result } p) :
    ReaderOk cfg a cleared leading c' slots
      { r with pc := p, trailingOctile := o, evictedSinceLastWait := flag, result := result } := by
  have hsession : r.reading = true → r.stopping = true ∨
      HasGuard cfg a cleared c' slots r.readingSequence := by
    intro hreading
    refine (h.session hreading hsettled).imp_right ?_
    rintro ⟨j, hj, hattached⟩
    exact ⟨j, hslot.trans hj, hattached⟩
  refine ⟨fun x hx hfalse => ?_, fun hloose => ?_, fun hreading _ => hsession hreading, ?_,
    fun htrim => h.trimmed (htrims htrim), hrequired, fun _ hcalm' => ⟨i, out, hcalm hcalm'⟩, hprogram⟩
  · obtain ⟨j, hj, hcovered⟩ := h.held x hx hfalse
    exact ⟨j, hslot.trans hj, hcovered⟩
  · refine h.loose ?_
    rwa [hsettled, ← hp]
  · rintro hreading - (hpc | hne)
    · rcases hsession hreading with hstop | hguard
      · simp [hproduce hpc] at hstop
      · exact hguard
    · exact absurd hpending hne

/-- It goes on without a call. -/
theorem ReaderOk.goto (hsettled : r.pc.settled = true) (p : Pc) (hcalm : p.calm = true)
    (hrequired : p.required = true → r.reading = true) (htrims : p.trims = true → r.pc.trims = true)
    (hproduce : p = .produce → r.stopping = false) (o : Octile) (flag : Bool) (result : Option (ℕ × ℕ)) :
    ReaderOk cfg a cleared leading (.owns i out) slots
      { r with pc := p, trailingOctile := o, evictedSinceLastWait := flag, result := result } := by
  refine h.settle hsettled p _ (Pc.settled_of_calm hcalm) rfl rfl hrequired htrims hproduce
    (fun _ => rfl) ?_
  cases p with
  | idle | wait | eviction k | produce => trivial
  | _ => cases hcalm

/-- Its call has returned. -/
theorem ReaderOk.idle (hpc : r.pc = p) (hp : p.settled = true) (o : Octile) :
    ReaderOk cfg a cleared leading (.owns i out) slots { r with pc := .idle, trailingOctile := o } :=
  h.goto (hpc ▸ hp) .idle rfl (nomatch ·) (nomatch ·) (nomatch ·) o _ _

/-- What a reader that guards nothing holds is lost. -/
theorem ReaderOk.all_evicted (hguard : (slots i).guardPresent = false) :
    ∀ x ∈ r.held, x.evicted = true := by
  intro x hx
  by_contra hfalse
  obtain ⟨j, hj, hcovered⟩ := h.held x hx (by simpa using hfalse)
  obtain rfl : i = j := Option.some.inj hj
  simp [hcovered.safe.guardPresent] at hguard

theorem ReaderOk.handled {b : Bool} (hpc : r.pc = .eviction k) :
    ReaderOk cfg a cleared leading (begun i out (r.handled cfg a b k).2) slots
      (r.handled cfg a b k).1 := by
  have hsettled : r.pc.settled = true := by rw [hpc]; rfl
  have hidle := h.idle hpc rfl r.trailingOctile
  cases k with
  | produceRange =>
    have hreading : r.reading = true := h.reading_of hpc rfl
    simp only [Reader.handled]
    by_cases hstop : (b || r.stopping) = true
    · rw [if_pos hstop]
      exact hidle
    · rw [if_neg hstop]
      simp only [Bool.or_eq_true, not_or, Bool.not_eq_true] at hstop
      exact h.goto hsettled .produce rfl (fun _ => hreading) (nomatch ·) (fun _ => hstop.2) _ _ _
  | doneReadingNewData =>
    have htrims : r.pc.trims = true := by rw [hpc]; rfl
    simp only [Reader.handled]
    split_ifs with hb hstop hsame
    · exact hidle
    · exact h.goto hsettled (.eviction .doneReadingNewData) rfl (nomatch ·) (fun _ => htrims)
        (nomatch ·) _ _ _
    · exact hidle
    · exact h.settle hsettled (.migrate _) (.acquire i _ _) rfl rfl rfl (nomatch ·) (fun _ => htrims)
        (nomatch ·) (nomatch ·) ⟨.attempt i, rfl⟩
  | handleEvictionIfNeeded => exact hidle

omit h in
/-- `handle_eviction` returns to a reader that has lost all it held. -/
theorem ReaderOk.returned (hall : ∀ h ∈ r.held, h.evicted = true)
    (hrequired : k.required = true → r.reading = true)
    (hsession : r.reading = true → r.stopping = true ∨
      HasGuard cfg a cleared (.owns i out) slots r.readingSequence) {b : Bool}
    (hnext : some (r.handled cfg a b k) = some (r', op)) :
    ReaderOk cfg a cleared leading (begun i out op) slots r' := by
  have hevicted : ReaderOk cfg a cleared leading (.owns i out) slots { r with pc := .eviction k } :=
    .evicted hall hrequired hsession
  have hhandled := hevicted.handled (b := b) rfl
  rwa [Reader.handled_goto, Option.some.inj hnext] at hhandled

section

variable (hnext : r.next cfg a leading (slots i) out giveUp = some (r', op))

include hnext

theorem ReaderOk.next_startStatus {num confirmed : ℕ} {o : Octile}
    (hpc : r.pc = .startStatus num o confirmed) :
    ReaderOk cfg a cleared leading (begun i out op) slots r' := by
  obtain ⟨hnum, hle, j, out', howns, hattached⟩ := h.program_of hpc
  cases howns
  simp only [Reader.next, hpc] at hnext
  split_ifs at hnext with hevicted
  · cases hnext
    exact .of_loose (h.all_lost hpc rfl) rfl (nomatch ·) trivial
  · cases hnext
    obtain ⟨q, hguard, hlap⟩ := hattached.resolve_left hevicted
    refine .got (h.reading_of hpc rfl) ⟨i, rfl, .inr ⟨q, hguard, hlap⟩⟩ (fun x hx _ => ?_) _ _
    obtain rfl := List.mem_singleton.1 hx
    refine ⟨i, rfl, q, hguard, hlap, (Config.anchor_le_tail confirmed q).trans ?_, hle⟩
    show cfg.octile _ ≤ cfg.octile ((confirmed - num : ℕ) : ℤ)
    exact Config.octile_mono (by omega)

theorem ReaderOk.next_eviction (hstatus : (slots i).status ≠ .inactive) (hpc : r.pc = .eviction k) :
    ReaderOk cfg a cleared leading (begun i out op) slots r' := by
  have hrequired : k.required = true → r.reading = true := h.reading_of hpc
  simp only [Reader.next, hpc] at hnext
  by_cases hpresent : ((slots i).guardPresent || r.stopping) = true
  · rw [if_pos hpresent] at hnext
    have hhandled := h.handled (b := false) hpc
    rwa [Option.some.inj hnext] at hhandled
  rw [if_neg hpresent] at hnext
  simp only [Bool.or_eq_true, not_or, Bool.not_eq_true] at hpresent
  have hall := h.all_evicted hpresent.1
  by_cases hevicted : (slots i).status = .evicted
  · rw [if_pos hevicted] at hnext
    cases hnext
    exact .of_loose hall (Bool.and_false _) hrequired trivial
  split_ifs at hnext
  · cases hnext
    exact h
  · cases hnext
    have hreading : r.reading = false := by
      by_contra hreading
      rcases h.session (by simpa using hreading) (by rw [hpc]; rfl) with hstop | ⟨j, hj, hattached⟩
      · simp [hpresent.2] at hstop
      · obtain rfl : i = j := Option.some.inj hj
        simp [(hattached.resolve_left hevicted).guardPresent] at hpresent
    exact .of_loose hall (Bool.and_false _) hrequired hreading

variable (hhead : Head cfg cleared leading)

include hhead

theorem ReaderOk.next_startGuard {num : ℕ} {o : Octile} (hpc : r.pc = .startGuard num o) :
    ReaderOk cfg a cleared leading (begun i out op) slots r' := by
  have hall := h.all_lost hpc rfl
  have hreading : r.reading = true := h.reading_of hpc rfl
  obtain ⟨hnum, hacquiring⟩ := h.program_of hpc
  simp only [Reader.next, hpc] at hnext
  split_ifs at hnext with hout ho
  all_goals cases hnext
  · subst hout
    refine .of_loose hall (Bool.and_false _) (fun _ => hreading) ⟨hnum, le_rfl, i, _, rfl, ?_⟩
    cases hacquiring with
    | acquired _ hguard => exact hhead.attached hguard ho
    | refused _ _ hr => exact absurd rfl hr
  · exact .of_loose hall (Bool.and_false _) (fun _ => hreading) hnum
  · exact .of_loose hall rfl (nomatch ·) trivial

theorem ReaderOk.next_resumeGuard (hpc : r.pc = .resumeGuard k) :
    ReaderOk cfg a cleared leading (begun i out op) slots r' := by
  have hall := h.all_lost hpc rfl
  have hrequired : k.required = true → r.reading = true := h.reading_of hpc
  have hacquiring := h.program_of hpc
  simp only [Reader.next, hpc] at hnext
  split_ifs at hnext with hout ho
  · subst hout
    have hguarded : HasGuard cfg a cleared (.owns i .acquired) slots leading := by
      cases hacquiring with
      | acquired _ hguard => exact ⟨i, rfl, hhead.attached hguard ho⟩
      | refused _ _ hr => exact absurd rfl hr
    rw [← hpc] at hnext
    exact .returned (r := { r with readingSequence := leading, evictedSinceLastWait := true }) hall
      hrequired (fun _ => .inr hguarded) hnext
  · cases hnext
    exact .of_loose hall (Bool.and_false _) hrequired trivial
  · -- the guard is only refused to a reader that is to stop
    have hstop : r.stopping = true := by
      cases hacquiring with
      | acquired => exact absurd rfl hout
      | refused _ _ _ hstop => exact hstop.resolve_right fun hr => nomatch hr.2
    exact .returned hall hrequired (fun _ => .inl hstop) hnext

theorem ReaderOk.next_produce (hpc : r.pc = .produce) :
    ReaderOk cfg a cleared leading (begun i out op) slots r' := by
  have hreading : r.reading = true := h.reading_of hpc rfl
  obtain ⟨j, hj, hattached⟩ := h.urgent hreading (by rw [hpc]; rfl) (.inl hpc)
  obtain rfl : i = j := Option.some.inj hj
  simp only [Reader.next, hpc] at hnext
  split_ifs at hnext with hlag
  · cases hnext
    exact h.idle hpc rfl _
  · cases hnext
    generalize hlast : r.readingSequence + min (leading - r.readingSequence) cfg.numElements = last
    have hle : last ≤ leading := by omega
    have hforward : r.readingSequence ≤ last := by omega
    have hcleared : last / cfg.octileElements ≤ cleared :=
      (Nat.div_le_div_right hle).trans hhead.low
    refine .got hreading ⟨i, rfl, hattached.imp_right fun hsafe => hsafe.forward hforward hcleared⟩
      (fun x hx hfalse => ?_) _ _
    rcases List.mem_cons.1 hx with rfl | hx
    · obtain ⟨q, hguard, hlap⟩ := hattached.resolve_left (by simpa using hfalse)
      have hanchor := anchor_forward hlap hforward hcleared
      refine ⟨i, rfl, q, hguard, by rwa [hanchor], ?_, hle⟩
      rw [hanchor]
      refine (Config.anchor_le_tail _ q).trans ?_
      show cfg.octile _ ≤ cfg.octile (r.readingSequence : ℤ)
      exact Config.octile_mono (by omega)
    · obtain ⟨j, hj, hcovered⟩ := h.held x hx hfalse
      exact ⟨j, hj, hcovered.forward hforward hcleared⟩

/-- **A reader goes on with its program.** -/
theorem ReaderOk.next (hstatus : (slots i).status ≠ .inactive) :
    ReaderOk cfg a cleared leading (begun i out op) slots r' := by
  cases hpc : r.pc
  case startGuard num o => exact h.next_startGuard hnext hhead hpc
  case startStatus num o confirmed => exact h.next_startStatus hnext hpc
  case eviction k => exact h.next_eviction hnext hstatus hpc
  case resumeGuard k => exact h.next_resumeGuard hnext hhead hpc
  case produce => exact h.next_produce hnext hhead hpc
  all_goals simp only [Reader.next, hpc] at hnext
  case idle => cases hnext
  case start num =>
    cases hnext
    exact .of_loose (h.all_lost hpc rfl) (Bool.and_false _) (fun _ => h.reading_of hpc rfl)
      ⟨h.program_of hpc, .attempt i⟩
  case startRelease num =>
    have hall := h.all_lost hpc rfl
    split_ifs at hnext
    · cases hnext
      exact .of_loose hall (Bool.and_false _) (fun _ => h.reading_of hpc rfl) (h.program_of hpc)
    · cases hnext
      exact .of_loose hall rfl (nomatch ·) trivial
  case wait =>
    split_ifs at hnext
    · cases hnext
      exact h.idle hpc rfl _
    · cases hnext
      exact h.goto (by rw [hpc]; rfl) (.eviction .produceRange) rfl (fun _ => h.reading_of hpc rfl)
        (nomatch ·) (nomatch ·) _ _ _
  case reattach k =>
    have hreading : r.reading = false := h.program_of hpc
    exact .returned (h.all_lost hpc rfl) (h.reading_of hpc)
      (fun htrue => absurd htrue (by rw [hreading]; decide)) hnext
  case resume k =>
    have hall := h.all_lost hpc rfl
    split_ifs at hnext with hstop
    · exact .returned hall (h.reading_of hpc) (fun _ => .inl hstop) hnext
    · cases hnext
      exact .of_loose hall (Bool.and_false _) (fun hk => h.reading_of hpc hk) trivial
    · cases hnext
      exact h
  case resumeHead k =>
    cases hnext
    exact .of_loose (h.all_lost hpc rfl) (Bool.and_false _) (fun hk => h.reading_of hpc hk) (.attempt i)
  case resumeRelease k =>
    cases hnext
    exact .of_loose (h.all_lost hpc rfl) (Bool.and_false _) (fun hk => h.reading_of hpc hk) trivial
  case migrate o =>
    split_ifs at hnext <;> cases hnext
    any_goals exact h.idle hpc rfl _
    · exact h.goto (by rw [hpc]; rfl) (.eviction .doneReadingNewData) rfl (nomatch ·)
        (fun _ => by rw [hpc]; rfl) (nomatch ·) _ _ _
  case copy =>
    cases hnext
    exact h.idle hpc rfl _
  case done =>
    cases hnext
    exact .of_loose (h.all_lost hpc rfl) rfl (nomatch ·) trivial

end

/-! ### Its calls -/

/-- `done_reading_new_data` gives back all but the trailing elements. -/
theorem ReaderOk.trim (hpc : r.pc = .idle) (hp : p = .idle ∨ p = .eviction .doneReadingNewData) :
    ReaderOk cfg a cleared leading (.owns i out) slots
      { r with
        pc := p
        held := r.held.map fun x =>
          { x with first := max x.first (r.readingSequence - cfg.maxTrailingElements a) } } := by
  have hsettled : r.pc.settled = true := by rw [hpc]; rfl
  have hp' : p.settled = true := by rcases hp with rfl | rfl <;> rfl
  refine ⟨?_, ?_, fun hreading _ => h.session hreading hsettled, ?_, ?_, ?_, fun _ _ => ⟨i, out, rfl⟩, ?_⟩
  · intro x hx hfalse
    obtain ⟨y, hy, rfl⟩ := List.mem_map.1 hx
    obtain ⟨j, hj, q, hguard, hlap, hfirst, hlast⟩ := h.held y hy hfalse
    exact ⟨j, hj, q, hguard, hlap, hfirst.trans (Config.octile_mono (by dsimp only; omega)), hlast⟩
  · intro hloose x hx
    obtain ⟨y, hy, rfl⟩ := List.mem_map.1 hx
    exact h.loose (by rwa [hsettled, ← hp']) y hy
  · rintro - - (rfl | hpending)
    · rcases hp with hp | hp <;> cases hp
    · exact absurd rfl hpending
  · intro _ x hx _
    obtain ⟨y, hy, rfl⟩ := List.mem_map.1 hx
    exact Config.octile_mono (by dsimp only; omega)
  · rcases hp with rfl | rfl <;> exact (nomatch ·)
  · rcases hp with rfl | rfl <;> trivial

/-- **A reader makes a call.** -/
theorem ReaderOk.call {d : ReaderCall} (hcall : r.call cfg a d = some (r', op)) :
    ReaderOk cfg a cleared leading (begun i out op) slots r' := by
  cases d with
  | startReading num =>
    obtain ⟨hok, ⟨⟩⟩ := Machine.of_guard hcall
    exact .of_loose (fun x hx => nomatch hx) rfl (fun _ => rfl) hok.2.2.2
  | waitForNewData =>
    obtain ⟨hok, ⟨⟩⟩ := Machine.of_guard hcall
    exact h.goto (by rw [hok.1]; rfl) .wait rfl (fun _ => hok.2) (nomatch ·) (nomatch ·) _ _ _
  | doneReadingNewData =>
    simp only [Reader.call] at hcall
    split_ifs at hcall with hidle hstop
    · cases hcall
      have htrim := h.trim hidle (.inl hidle)
      exact htrim
    · cases hcall
      exact h.trim hidle (.inr rfl)
  | handleEvictionIfNeeded =>
    obtain ⟨hidle, ⟨⟩⟩ := Machine.of_guard hcall
    exact h.goto (by rw [hidle]; rfl) (.eviction .handleEvictionIfNeeded) rfl (nomatch ·) (nomatch ·)
      (nomatch ·) _ _ _
  | withCopyingMark =>
    obtain ⟨hok, ⟨⟩⟩ := Machine.of_guard hcall
    exact h.settle (by rw [hok.1]; rfl) .copy (.copy i) rfl rfl rfl (fun _ => hok.2) (nomatch ·)
      (nomatch ·) (nomatch ·) ⟨i, .attempt⟩
  | doneReading =>
    obtain ⟨-, ⟨⟩⟩ := Machine.of_guard hcall
    exact .of_loose (fun x hx => nomatch hx) (Bool.and_false _) (nomatch ·) trivial

end

/-! ### The steps of others -/

/-- The writer has seen that nobody reads octile `cleared'`. -/
structure Clears (cleared cleared' : ℕ) (slots : Fin n → ReaderState) : Prop where
  next : cleared' ≤ cleared + 1
  unread : ∀ i q, (slots i).guard = some q → cleared' ≠ cleared → (q.val : ℤ) % 8 ≠ (cleared' : ℤ) % 8

section

variable {cleared' sequence : ℕ} (hclears : Clears cleared cleared' slots)

include hclears

theorem Clears.le_anchor {q : Octile} (hguard : (slots i).guard = some q)
    (hlap : (cleared : ℤ) ≤ cfg.anchor a sequence q + 7) :
    (cleared' : ℤ) ≤ cfg.anchor a sequence q + 7 := by
  by_cases hsame : cleared' = cleared
  · rwa [hsame]
  · have hnext := hclears.next
    exact Laps.le_anchor_add (by change (cleared : ℤ) ≤ Laps.anchor _ _ _ + 7 at hlap; omega)
      (hclears.unread i q hguard hsame).symm

theorem Clears.attached (h : Attached cfg a cleared sequence (slots i)) :
    Attached cfg a cleared' sequence (slots i) := by
  refine h.imp_right ?_
  rintro ⟨q, hguard, hlap⟩
  exact ⟨q, hguard, hclears.le_anchor hguard hlap⟩

theorem Clears.hasGuard (h : HasGuard cfg a cleared c slots sequence) :
    HasGuard cfg a cleared' c slots sequence := by
  obtain ⟨i, hi, hattached⟩ := h
  exact ⟨i, hi, hclears.attached hattached⟩

end

/-- The slot of the reader has the guard and the status that it had. -/
def Same (c : Guards.Pc n) (slots slots' : Fin n → ReaderState) : Prop :=
  ∀ i, c.slot = some i → (slots' i).guard = (slots i).guard ∧ (slots' i).status = (slots i).status

theorem Same.attached (hsame : Same c slots slots') (hi : c.slot = some i)
    (h : Attached cfg a cleared sequence (slots i)) : Attached cfg a cleared sequence (slots' i) := by
  unfold Attached Safe
  rwa [(hsame i hi).1, (hsame i hi).2]

theorem HasGuard.same (h : HasGuard cfg a cleared c slots sequence)
    (hslot : c'.slot = c.slot) (hsame : Same c slots slots') :
    HasGuard cfg a cleared c' slots' sequence := by
  obtain ⟨i, hi, hattached⟩ := h
  exact ⟨i, hslot.trans hi, hsame.attached hi hattached⟩

section

variable (h : ReaderOk cfg a cleared leading c slots r)

include h

theorem ReaderOk.publish {leading' : ℕ} (hle : leading ≤ leading') :
    ReaderOk cfg a cleared leading' c slots r := by
  refine { h with
    held := ?_
    program := h.program.map hle (fun _ _ => id) (fun _ _ _ => .intro) fun _ => id }
  intro x hx hfalse
  obtain ⟨j, hj, q, hguard, hlap, hfirst, hlast⟩ := h.held x hx hfalse
  exact ⟨j, hj, q, hguard, hlap, hfirst, hlast.trans hle⟩

theorem ReaderOk.clear {cleared' : ℕ} (hclears : Clears cleared cleared' slots) :
    ReaderOk cfg a cleared' leading c slots r := by
  refine ⟨?_, h.loose, ?_, ?_, h.trimmed, h.required, h.calm, ?_⟩
  · intro x hx hfalse
    obtain ⟨j, hj, q, hguard, hlap, hfirst, hlast⟩ := h.held x hx hfalse
    exact ⟨j, hj, q, hguard, hclears.le_anchor hguard hlap, hfirst, hlast⟩
  · exact fun hreading hsettled => (h.session hreading hsettled).imp_right hclears.hasGuard
  · exact fun hreading hsettled hurgent => hclears.hasGuard (h.urgent hreading hsettled hurgent)
  · refine h.program.map le_rfl (fun _ _ => id) (fun _ _ _ howns hslot => ?_) fun _ => id
    exact ⟨howns, hclears.attached hslot⟩

theorem ReaderOk.stop : ReaderOk cfg a cleared leading c slots { r with stopping := true } := by
  refine { h with session := fun _ _ => .inl rfl, program := ?_ }
  exact h.program.map le_rfl (fun _ _ => Acquiring.stop) (fun _ _ _ => .intro) fun _ => id

theorem ReaderOk.lose : ReaderOk cfg a cleared leading c slots r.lose := by
  have hall : ∀ x ∈ r.lose.held, x.evicted = true := by
    intro x hx
    obtain ⟨y, -, rfl⟩ := List.mem_map.1 hx
    rfl
  refine ⟨?_, fun _ => hall, h.session, h.urgent, ?_, h.required, h.calm, ?_⟩
  · intro x hx hfalse
    simp [hall x hx] at hfalse
  · intro _ x hx hfalse
    simp [hall x hx] at hfalse
  · exact h.program.map le_rfl (fun _ _ => id) (fun _ _ _ => .intro) fun _ => id

/-- A reader goes on with an operation that keeps its guard. -/
theorem ReaderOk.keep (hslot : c'.slot = c.slot) (hsame : Same c slots slots')
    (hurgent : r.reading = true → r.pc.settled = true → c'.pending ≠ none →
      HasGuard cfg a cleared c slots r.readingSequence)
    (hcalm : r.reading = true → r.pc.calm = true → ∃ i out, c' = .owns i out)
    (hprogram : Program cfg a cleared leading c' slots' r r.pc) :
    ReaderOk cfg a cleared leading c' slots' r := by
  refine ⟨?_, h.loose, ?_, ?_, h.trimmed, h.required, hcalm, hprogram⟩
  · intro x hx hfalse
    obtain ⟨i, hi, hcovered⟩ := h.held x hx hfalse
    refine ⟨i, hslot.trans hi, ?_⟩
    unfold Covered
    rwa [(hsame i hi).1]
  · exact fun hreading hsettled => (h.session hreading hsettled).imp_right (HasGuard.same · hslot hsame)
  · rintro hreading hsettled (hproduce | hpending)
    · exact (h.urgent hreading hsettled (.inl hproduce)).same hslot hsame
    · exact (hurgent hreading hsettled hpending).same hslot hsame

/-- The slot of the reader is EVICTED. -/
theorem ReaderOk.evict (hi : c.slot = some i) (hevicted : (slots' i).status = .evicted)
    (hacquiring : ∀ o allowEvicted, Acquiring slots r.stopping o allowEvicted c →
      Acquiring slots' r.stopping o allowEvicted c) :
    ReaderOk cfg a cleared leading c slots' r.lose := by
  have hguarded : ∀ sequence, HasGuard cfg a cleared c slots' sequence :=
    fun sequence => ⟨i, hi, .inl hevicted⟩
  have hlost := h.lose
  refine ⟨?_, hlost.loose, fun _ _ => .inr (hguarded _), fun _ _ _ => hguarded _, hlost.trimmed,
    h.required, h.calm, ?_⟩
  · intro x hx hfalse
    obtain ⟨y, -, rfl⟩ := List.mem_map.1 hx
    cases hfalse
  · refine h.program.map le_rfl hacquiring (fun j out sequence howns _ => ⟨howns, .inl ?_⟩) fun _ => id
    subst howns
    obtain rfl : j = i := Option.some.inj hi
    exact hevicted

/-- **Another agent does something to the slot of the reader.** -/
theorem ReaderOk.other (hi : c.slot = some i) (hpending : (slots i).pending = c.pending)
    (hslot : Untouched (slots i) (slots' i)) :
    ReaderOk cfg a cleared leading c slots' (if (slots' i).status = .evicted then r.lose else r) := by
  have hacquiring : ∀ o allowEvicted, Acquiring slots r.stopping o allowEvicted c →
      Acquiring slots' r.stopping o allowEvicted c :=
    fun o allowEvicted hacq => hacq.untouched hi hpending hslot
  cases hslot with
  | same hguard hstatus =>
    have hsame : Same c slots slots' := by
      intro j hj
      obtain rfl : i = j := Option.mem_unique hi hj
      exact ⟨hguard, hstatus⟩
    have hkeep : ReaderOk cfg a cleared leading c slots' r := by
      refine h.keep rfl hsame (fun hreading hsettled hpend => h.urgent hreading hsettled (.inr hpend))
        h.calm (h.program.map le_rfl hacquiring (fun i out sequence howns hslot => ?_) fun _ => id)
      exact ⟨howns, hsame.attached (by rw [howns]; rfl) hslot⟩
    split_ifs
    · exact hkeep.lose
    · exact hkeep
  | evicted _ hevicted =>
    rw [if_pos hevicted]
    exact h.evict hi hevicted hacquiring

/-! ### The guard of a reader -/

/-- The guard moves up to the trailing elements. -/
theorem ReaderOk.attach {o : Octile} (hpc : r.pc = .migrate o) (hreading : r.reading = true)
    (hi : c.slot = some i) (hi' : c'.slot = some i) (hpending : c.pending ≠ none)
    (ho : o = cfg.trailingOctileOf a r.readingSequence) (hguard : (slots' i).guard = some o)
    (hstatus : (slots' i).status = (slots i).status)
    (hacquiring : Acquiring slots' r.stopping o false c') :
    ReaderOk cfg a cleared leading c' slots' r := by
  subst ho
  have hsettled : r.pc.settled = true := by rw [hpc]; rfl
  obtain ⟨j, hj, hattached⟩ := h.urgent hreading hsettled (.inr hpending)
  obtain rfl : i = j := Option.mem_unique hi hj
  have hguarded : HasGuard cfg a cleared c' slots' r.readingSequence := by
    refine ⟨i, hi', ?_⟩
    rcases hattached with hevicted | hsafe
    · exact .inl (hstatus.trans hevicted)
    · exact .inr (hsafe.migrate hguard)
  refine ⟨?_, h.loose, fun _ _ => .inr hguarded, fun _ _ _ => hguarded, h.trimmed, h.required, ?_, ?_⟩
  · intro x hx hfalse
    obtain ⟨j, hj, hcovered⟩ := h.held x hx hfalse
    obtain rfl : i = j := Option.mem_unique hi hj
    obtain ⟨q, hq, hlap⟩ := hcovered.safe.migrate hguard
    obtain rfl := Option.mem_unique hguard hq
    refine ⟨i, hi', _, hq, hlap, ?_, hcovered.choose_spec.2.2.2⟩
    rw [Config.anchor_trailing]
    exact h.trimmed (by rw [hpc]; rfl) x hx hfalse
  · rw [hpc]
    exact fun _ => (nomatch ·)
  · rw [hpc]
    exact ⟨hacquiring, rfl⟩

end

end

section

variable {n : ℕ} {cfg : Config} {a : Agent} {cleared leading : ℕ} {r : Reader} {s : Guards.State n}
  {e : Guards.Effect n} {c : Guards.Pc n} {ch : Guards.Choice}

theorem next_owns {i : Fin n} {out : Outcome} (h : s.pc a = .owns i out) : s.next a ch = none := by
  simp [Guards.State.next, h]

variable (h : ReaderOk cfg a cleared leading (s.pc a) s.slots r) (hnext : s.next a ch = some (e, c))

include h hnext

theorem ReaderOk.advance_copy (hpc : r.pc = .copy) :
    ReaderOk cfg a cleared leading c (s.apply a e).slots r := by
  obtain ⟨i, hcopying⟩ := h.program_of hpc
  obtain ⟨hcopying', hguard, hstatus⟩ := hcopying.next hnext
  refine h.keep (hcopying'.slot.trans hcopying.slot.symm) ?_ ?_ ?_ ?_
  · intro j hj
    obtain rfl : i = j := Option.mem_unique hcopying.slot hj
    exact ⟨hguard, hstatus⟩
  · exact fun _ _ hne => absurd hcopying'.pending hne
  · rw [hpc]
    exact fun _ => (nomatch ·)
  · rw [hpc]
    exact ⟨i, hcopying'⟩

variable (hs : Guards.Inv s) (ha : s.Live a) (hstop : ch.stop = r.stopping)

include hs ha hstop

theorem ReaderOk.advance_migrate {o : Octile} (hpc : r.pc = .migrate o) (hreading : r.reading = true) :
    ReaderOk cfg a cleared leading c (s.apply a e).slots r := by
  have hsettled : r.pc.settled = true := by rw [hpc]; rfl
  obtain ⟨hacquiring, ho⟩ := h.program_of hpc
  rw [← hstop] at hacquiring
  have hacquiring' := hacquiring.next hs ha hnext
  rw [hstop] at hacquiring'
  obtain ⟨i, hi⟩ : ∃ i, (s.pc a).slot = some i := by
    generalize s.pc a = c₀ at hacquiring
    cases hacquiring <;> exact ⟨_, rfl⟩
  obtain ⟨hi', hstep⟩ := hacquiring.acquireStep hi hnext
  have hkeep (hguard : ((s.apply a e).slots i).guard = (s.slots i).guard)
      (hstatus : ((s.apply a e).slots i).status = (s.slots i).status)
      (hurgent : c.pending ≠ none → HasGuard cfg a cleared (s.pc a) s.slots r.readingSequence) :
      ReaderOk cfg a cleared leading c (s.apply a e).slots r := by
    refine h.keep (hi'.trans hi.symm) ?_ (fun _ _ => hurgent) ?_ ?_
    · intro j hj
      obtain rfl : i = j := Option.mem_unique hi hj
      exact ⟨hguard, hstatus⟩
    · rw [hpc]
      exact fun _ => (nomatch ·)
    · rw [hpc]
      exact ⟨hacquiring', ho⟩
  cases hstep with
  | keeps hguard hstatus hpending =>
    exact hkeep hguard hstatus fun hne => h.urgent hreading hsettled (.inr (hpending hne))
  | publishes hgo hguard hstatus =>
    refine hkeep hguard hstatus fun _ => (h.session hreading hsettled).resolve_left ?_
    simp [← hstop, hgo]
  | attaches hpending hguard hstatus =>
    exact h.attach hpc hreading hi hi' hpending ho hguard hstatus hacquiring'

/-- **A reader goes on with an operation on its guard.** -/
theorem ReaderOk.advance : ReaderOk cfg a cleared leading c (s.apply a e).slots r := by
  have hcalm : r.reading = true → r.pc.calm = true → False := by
    intro hreading hcalm
    obtain ⟨i, out, howns⟩ := h.calm hreading hcalm
    rw [next_owns howns] at hnext
    cases hnext
  by_cases hreading : (r.reading && r.pc.settled) = true
  · rw [Bool.and_eq_true] at hreading
    cases hpc : r.pc with
    | idle | wait | eviction k | produce => exact (hcalm hreading.1 (by rw [hpc]; rfl)).elim
    | copy => exact h.advance_copy hnext hpc
    | migrate o => exact h.advance_migrate hnext hs ha hstop hpc hreading.1
    | _ => simp [hpc, Pc.settled] at hreading
  · rw [Bool.not_eq_true] at hreading
    refine .of_loose (h.loose hreading) hreading h.required ?_
    refine h.program.map le_rfl (fun o allowEvicted hacq => ?_) (fun i out _ howns _ => ?_) fun i hi => ?_
    · rw [← hstop] at hacq ⊢
      exact hacq.next hs ha hnext
    · rw [next_owns howns] at hnext
      cases hnext
    · exact (hi.next hnext).1

end

end Sintra.Ring.Snapshots
