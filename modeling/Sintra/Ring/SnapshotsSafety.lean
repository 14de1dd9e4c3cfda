import Sintra.Lib.Updates
import Sintra.Ring.SnapshotsReaders

/-!
# Snapshots are not overwritten

The writer enters an octile only after it has seen its count at zero (`WriterOk`), an element it has
published stays in memory until the writer is a lap ahead of it (`Inv.memory`), and a reader that holds
a range has a guard that keeps the writer from getting there (`Inv.readers`).
-/

namespace Sintra.Ring.Snapshots

open Function

open Slots (Agent)
open Guards (Outcome Call)

section

variable {n : ℕ} {β : Type*}

/-! ### The writer -/

/-- The sequence number up to which `prepare_write` has returned. -/
def Writer.reserved (w : Writer) : ℕ := w.saved.getD w.pending

/-- The invariant of the writer. -/
structure WriterOk (cfg : Config) (leading : ℕ) (pc : Agent → Guards.Pc n) (w : Writer) : Prop where
  leading_le : leading ≤ w.reserved
  reserved_le : w.reserved ≤ w.pending
  pending_le : w.pending ≤ leading + cfg.octileElements
  octile : w.octile = cfg.octileOf w.reserved
  reserved_cleared : w.reserved / cfg.octileElements ≤ w.cleared
  cleared_le : w.cleared ≤ leading / cfg.octileElements + 1
  entering : ∀ b o, (pc b).stage = .entering o →
    b = cfg.writer ∧ w.saved.isSome = true ∧ o = cfg.octileOf w.pending
  saved : w.saved.isSome = true → (pc cfg.writer).stage ≠ .outside
  entered : w.saved.isSome = true → (pc cfg.writer).stage = .entered →
    w.pending / cfg.octileElements ≤ w.cleared

section

variable {cfg : Config} {leading : ℕ} {pc : Agent → Guards.Pc n} {w : Writer}

theorem WriterOk.head (h : WriterOk cfg leading pc w) : Head cfg w.cleared leading where
  low := (Nat.div_le_div_right h.leading_le).trans h.reserved_cleared
  high := h.cleared_le

/-- The pending sequence is at most in the octile after the last that is cleared. -/
theorem WriterOk.pending_div_le (h : WriterOk cfg leading pc w) :
    w.pending / cfg.octileElements ≤ leading / cfg.octileElements + 1 := by
  have hdiv := Nat.div_le_div_right (c := cfg.octileElements) h.pending_le
  rwa [Nat.add_div_right _ cfg.octileElements_pos] at hdiv

/-- Another agent, or the writer between its calls, goes somewhere. -/
theorem WriterOk.goto (h : WriterOk cfg leading pc w) {b : Agent} {c : Guards.Pc n}
    (hentering : ∀ o, c.stage ≠ .entering o) (hwriter : b = cfg.writer → w.saved.isSome = false) :
    WriterOk cfg leading (update pc b c) w := by
  have hne : w.saved.isSome = true → cfg.writer ≠ b := by
    rintro hsaved rfl
    simp [hwriter rfl] at hsaved
  refine { h with entering := ?_, saved := ?_, entered := ?_ }
  · intro d o hd
    obtain rfl | hdb := eq_or_ne d b
    · rw [update_self] at hd
      exact absurd hd (hentering o)
    · rw [update_of_ne hdb] at hd
      exact h.entering d o hd
  · intro hsaved
    rw [update_of_ne (hne hsaved)]
    exact h.saved hsaved
  · intro hsaved
    rw [update_of_ne (hne hsaved)]
    exact h.entered hsaved

theorem Writer.reserved_of_not_saved (h : w.saved = none) : w.reserved = w.pending := by
  rw [reserved, h]
  rfl

/-- The writer between its calls sets its pending sequence. -/
theorem WriterOk.setPending (h : WriterOk cfg leading pc w) (hsaved : w.saved = none) {x : ℕ}
    {o : Octile} (hlow : leading ≤ x) (hhigh : x ≤ leading + cfg.octileElements)
    (ho : o = cfg.octileOf x) (hcleared : x / cfg.octileElements ≤ w.cleared) :
    WriterOk cfg leading pc { w with pending := x, octile := o } := by
  have hreserved : ({ w with pending := x, octile := o } : Writer).reserved = x :=
    Writer.reserved_of_not_saved hsaved
  have hnot : ¬w.saved.isSome = true := by simp [hsaved]
  refine ⟨?_, hreserved.le, hhigh, ?_, ?_, h.cleared_le, ?_, fun hsome => absurd hsome hnot,
    fun hsome => absurd hsome hnot⟩
  · rwa [hreserved]
  · rwa [hreserved]
  · rwa [hreserved]
  · intro b o hstage
    exact absurd (h.entering b o hstage).2.1 hnot

/-- The last octile that is cleared after a step of the guards by agent `b`. -/
def clearedBy (cfg : Config) (g : Guards.State n) (b : Agent) (w : Writer) : ℕ :=
  if g.enters b then max w.cleared (w.pending / cfg.octileElements) else w.cleared

theorem le_clearedBy (cfg : Config) (g : Guards.State n) (b : Agent) (w : Writer) :
    w.cleared ≤ clearedBy cfg g b w := by
  unfold clearedBy
  split_ifs
  · exact Nat.le_max_left _ _
  · exact le_rfl

theorem WriterOk.advance {g : Guards.State n} (h : WriterOk cfg leading g.pc w) {b : Agent}
    {ch : Guards.Choice} {e : Guards.Effect n} {c : Guards.Pc n} (hnext : g.next b ch = some (e, c)) :
    WriterOk cfg leading (update g.pc b c) { w with cleared := clearedBy cfg g b w } := by
  have hle := le_clearedBy cfg g b w
  have hcourse := Guards.course_next hnext
  refine ⟨h.leading_le, h.reserved_le, h.pending_le, h.octile, h.reserved_cleared.trans hle, ?_, ?_,
    ?_, ?_⟩
  · show clearedBy cfg g b w ≤ _
    unfold clearedBy
    split_ifs
    · exact Nat.max_le.2 ⟨h.cleared_le, h.pending_div_le⟩
    · exact h.cleared_le
  · intro d o hd
    obtain rfl | hdb := eq_or_ne d b
    · rw [update_self] at hd
      cases hcourse with
      | same hsame => exact h.entering d o (hsame.symm.trans hd)
      | enters _ hentered => cases hentered.symm.trans hd
      | fails _ _ hfailed => cases hfailed.symm.trans hd
      | opened _ hopened =>
        rw [hopened] at hd
        cases hd
    · rw [update_of_ne hdb] at hd
      exact h.entering d o hd
  · intro hsaved
    obtain rfl | hb := eq_or_ne cfg.writer b
    · rw [update_self]
      have hstage := h.saved hsaved
      cases hcourse with
      | same hsame => rwa [hsame]
      | enters _ hentered =>
        rw [hentered]
        exact (nomatch ·)
      | fails _ _ hfailed =>
        rw [hfailed]
        exact (nomatch ·)
      | opened houtside => exact absurd houtside hstage
    · rw [update_of_ne hb]
      exact h.saved hsaved
  · intro hsaved hentered
    obtain rfl | hb := eq_or_ne cfg.writer b
    · rw [update_self] at hentered
      cases hcourse with
      | same hsame => exact (h.entered hsaved (hsame.symm.trans hentered)).trans hle
      | enters henters =>
        show _ ≤ clearedBy cfg g cfg.writer w
        rw [clearedBy, if_pos henters]
        exact Nat.le_max_right _ _
      | fails _ _ hfailed => cases hfailed.symm.trans hentered
      | opened houtside => exact absurd houtside (h.saved hsaved)
    · rw [update_of_ne hb] at hentered
      exact (h.entered hsaved hentered).trans hle

/-- What the writer sees when it clears an octile. -/
theorem WriterOk.clears {g : Guards.State n} (h : WriterOk cfg leading g.pc w)
    (hcounted : Guards.Counted g) (b : Agent) : Clears w.cleared (clearedBy cfg g b w) g.slots := by
  unfold clearedBy
  split_ifs with henters
  · obtain ⟨o, hstage, hzero⟩ := Guards.State.entering_of_enters henters
    obtain ⟨-, -, ho⟩ := h.entering b o hstage
    have hnext : w.pending / cfg.octileElements ≤ w.cleared + 1 :=
      h.pending_div_le.trans (Nat.add_le_add_right h.head.low 1)
    refine ⟨Nat.max_le.2 ⟨Nat.le_succ _, hnext⟩, ?_⟩
    intro i q hguard hne hmod
    have hmax : max w.cleared (w.pending / cfg.octileElements) = w.pending / cfg.octileElements := by
      omega
    have hq : q = o := by
      rw [ho]
      refine Fin.ext ?_
      rw [Config.octileOf_val]
      omega
    subst hq
    have hpos := (hcounted q).pos (x := .inl i) hguard
    omega
  · exact ⟨Nat.le_succ _, fun _ _ _ hne => absurd rfl hne⟩

end

/-! ### The invariant -/

/-- The invariant of the ring. -/
structure Inv (cfg : Config) (s : State n β) : Prop where
  exited : s.guards.exited = ∅
  writer : WriterOk cfg s.leading s.guards.pc s.writer
  memory : ∀ y, y < s.leading → s.writer.cleared ≤ y / cfg.octileElements + 7 →
    s.published[y]? = some (s.memory (y % cfg.numElements))
  readers : ∀ a, ReaderOk cfg a s.writer.cleared s.leading (s.guards.pc a) s.guards.slots (s.reader a)

theorem inv_initial (cfg : Config) (memory : ℕ → β) : Inv cfg (State.initial n memory) where
  exited := rfl
  writer := by
    refine ⟨le_rfl, le_rfl, Nat.zero_le _, ?_, ?_, Nat.zero_le _, ?_, (nomatch ·), (nomatch ·)⟩
    · refine Fin.ext ?_
      rw [Config.octileOf_val]
      show 0 = 0 / cfg.octileElements % 8
      rw [Nat.zero_div]
    · show 0 / cfg.octileElements ≤ 0
      rw [Nat.zero_div]
    · intro b o h
      cases h
  memory y hy := nomatch hy
  readers a := .of_loose (fun x hx => nomatch hx) rfl (nomatch ·) trivial

variable {cfg : Config} {s t : State n β}

theorem Inv.live (h : Inv cfg s) (a : Agent) : s.guards.Live a := by
  show a.process ∉ s.guards.exited
  rw [h.exited]
  exact Finset.notMem_empty _

variable {a : Agent} {c : Guards.Pc n} {d : Call} {e : Guards.Effect n} {r : Reader}
    {ch : Guards.Choice}

/-- A reader without a slot may go anywhere. -/
theorem ReaderOk.unslotted {cleared leading : ℕ} {slots : Fin n → ReaderState}
    (h : ReaderOk cfg a cleared leading c slots r) (slots' : Fin n → ReaderState) (c' : Guards.Pc n)
    (hslot : c.slot = none) : ReaderOk cfg a cleared leading c' slots' r := by
  have hacquiring : ∀ o allowEvicted, ¬Guards.Acquiring slots r.stopping o allowEvicted c := by
    intro o allowEvicted hacq
    cases hacq <;> cases hslot
  have hloose : (r.reading && r.pc.settled) = false := by
    by_contra htrue
    simp only [Bool.not_eq_false, Bool.and_eq_true] at htrue
    have hcalm : r.pc.calm = false := by
      by_contra hcalm
      obtain ⟨i, out, rfl⟩ := h.calm htrue.1 (by simpa using hcalm)
      cases hslot
    cases hpc : r.pc with
    | migrate o => exact hacquiring _ _ (h.program_of hpc).1
    | copy =>
      obtain ⟨i, hcopying⟩ := h.program_of hpc
      cases hcopying.slot.symm.trans hslot
    | _ => first
        | (rw [hpc] at hcalm; cases hcalm; done)
        | (rw [hpc] at htrue; cases htrue.2)
  refine .of_loose (h.loose hloose) hloose h.required ?_
  cases hpc : r.pc with
  | startGuard num o => exact absurd (h.program_of hpc).2 (hacquiring _ _)
  | startStatus num o confirmed =>
    obtain ⟨-, -, i, out, rfl, -⟩ := h.program_of hpc
    cases hslot
  | resumeGuard k => exact absurd (h.program_of hpc) (hacquiring _ _)
  | migrate o => exact absurd (h.program_of hpc).1 (hacquiring _ _)
  | copy =>
    obtain ⟨i, hcopying⟩ := h.program_of hpc
    cases hcopying.slot.symm.trans hslot
  | _ => exact h.program_of hpc

/-! ### Calls -/

theorem act_call (h : s.act (.call a d) = some t) :
    ∃ e c, s.guards.call a d = some (e, c) ∧
      t = { s with guards := (s.guards.apply a e).goto a c } := by
  obtain ⟨g, hg, rfl⟩ := Option.map_eq_some_iff.1 h
  cases Guards.step_cases hg with
  | call _ hcall => exact ⟨_, _, hcall, rfl⟩

theorem act_advance (h : s.act (.advance a ch) = some t) :
    ∃ e c, s.guards.next a ch = some (e, c) ∧
      t = { s with guards := (s.guards.apply a e).goto a c } := by
  obtain ⟨g, hg, rfl⟩ := Option.map_eq_some_iff.1 h
  cases Guards.step_cases hg with
  | advance _ hnext => exact ⟨_, _, hnext, rfl⟩

variable {g : Guards.State n}

theorem call_begun {i : Fin n} {out : Outcome} (hpc : g.pc a = .owns i out)
    (hcall : g.call a d = some (e, c)) : e = .skip ∧ c = begun i out (some d) := by
  cases d with
  | construct | scavengeOrphans | openWriter => simp [Guards.State.call, hpc] at hcall
  | closeWriter | advanceWriter o =>
      simp [Guards.State.call, Guards.State.call.ofWriter, hpc] at hcall
  | _ =>
    simp only [Guards.State.call, Guards.State.call.ofReader, hpc] at hcall
    cases hcall
    exact ⟨rfl, rfl⟩

theorem call_ofWriter {ok : Bool} {c' : Guards.Pc n} (hpc : g.pc a = .writer ok)
    (hcall : Guards.State.call.ofWriter g a c' = some (e, c)) : c = c' := by
  simp only [Guards.State.call.ofWriter, hpc] at hcall
  cases hcall
  rfl

theorem stage_begun (i : Fin n) (out : Outcome) (call : Option Call) :
    (begun i out call).stage = .outside := by
  cases call with
  | none => rfl
  | some d => cases d <;> rfl

theorem writing_iff (s : State n β) :
    s.writing cfg = true ↔ (∃ ok, s.guards.pc cfg.writer = .writer ok) ∧ s.writer.saved = none := by
  unfold State.writing
  cases hpc : s.guards.pc cfg.writer with
  | writer ok => simp
  | _ => simp

theorem ReaderOk.noteEvictions {g' : Guards.State n} {a b : Agent} {cleared leading : ℕ}
    {reader : Agent → Reader} (hg : Guards.Inv g) (ha : g.Live a) (hb : g.Live b)
    (h : ReaderOk cfg a cleared leading (g.pc a) g.slots (reader a))
    (hstop : ch.stop = (reader b).stopping) (hnext : g.next b ch = some (e, c))
    (hg' : g' = (g.apply b e).goto b c) :
    ReaderOk cfg a cleared leading (g'.pc a) g'.slots (State.noteEvictions g' reader a) := by
  subst hg'
  show ReaderOk cfg a cleared leading _ (g.apply b e).slots _
  obtain rfl | hab := eq_or_ne a b
  · have hadvance := h.advance hnext hg ha hstop
    rw [Guards.State.pc_goto_self]
    unfold State.noteEvictions
    split
    next i _ =>
      split_ifs
      · exact hadvance.lose
      · exact hadvance
    next => exact hadvance
  · have hpc : ((g.apply b e).goto b c).pc a = g.pc a := by
      rw [Guards.State.pc_goto_of_ne _ _ hab, Guards.State.pc_apply]
    unfold State.noteEvictions
    rw [hpc]
    cases hslot : (g.pc a).slot with
    | none => exact h.unslotted _ _ hslot
    | some i =>
      exact h.other hslot (hg.owned a i ha hslot).pending
        (hg.untouched ha hb (Ne.symm hab) hslot hnext)

section

variable (hs : Inv cfg s)

include hs

/-- Only the variables of a reader change. -/
theorem Inv.setReader
    (hreader : ReaderOk cfg a s.writer.cleared s.leading (s.guards.pc a) s.guards.slots r) :
    Inv cfg (s.setReader a r) := { hs with
  readers := Updates.forall_update
    (fun b => ReaderOk cfg b s.writer.cleared s.leading (s.guards.pc b) s.guards.slots) rfl
    (fun _ => hreader) hs.readers }

/-- An agent calls an operation on the guards, and nothing else changes but its own variables and those
of the writer. -/
theorem Inv.called (hcall : s.guards.call a d = some (e, c)) {w : Writer}
    (hwriter : WriterOk cfg s.leading (update s.guards.pc a c) w)
    (hcleared : w.cleared = s.writer.cleared)
    (hreader : ReaderOk cfg a s.writer.cleared s.leading c s.guards.slots r) :
    Inv cfg { s with
      guards := (s.guards.apply a e).goto a c
      writer := w
      reader := update s.reader a r } where
  exited := (Guards.State.exited_apply _ _ _).trans hs.exited
  writer := by
    show WriterOk cfg s.leading (update (s.guards.apply a e).pc a c) w
    rwa [Guards.State.pc_apply]
  memory y hy hlap := by
    rw [show w.cleared = s.writer.cleared from hcleared] at hlap
    exact hs.memory y hy hlap
  readers b := by
    show ReaderOk cfg b w.cleared s.leading (update (s.guards.apply a e).pc a c b)
      (s.guards.apply a e).slots (update s.reader a r b)
    rw [hcleared, Guards.State.pc_apply, Guards.slots_of_call hcall]
    obtain rfl | hba := eq_or_ne b a
    · rwa [update_self, update_self]
    · rw [update_of_ne hba, update_of_ne hba]
      exact hs.readers b

/-- An agent that is no writer in `prepare_write` calls an operation. -/
theorem Inv.calls (hcall : s.guards.call a d = some (e, c))
    (hentering : ∀ o, c.stage ≠ .entering o)
    (hwriter : a = cfg.writer → s.writer.saved.isSome = false)
    (hreader : ReaderOk cfg a s.writer.cleared s.leading c s.guards.slots r) :
    Inv cfg { s with
      guards := (s.guards.apply a e).goto a c
      reader := update s.reader a r } :=
  hs.called hcall (hs.writer.goto hentering hwriter) rfl hreader

/-- An agent whose control point is outside of `prepare_write` is not in it. -/
theorem Inv.not_saved (hpc : s.guards.pc a = c) (hstage : c.stage = .outside) :
    a = cfg.writer → s.writer.saved.isSome = false := by
  subst hpc
  rintro rfl
  by_contra hsaved
  rw [Bool.not_eq_false] at hsaved
  exact hs.writer.saved hsaved hstage

/-- A reader that goes on, or makes a call. -/
theorem Inv.perform {i : Fin n} {out : Outcome} (hpc : s.guards.pc a = .owns i out)
    {m : Reader × Option Call}
    (hreader : ReaderOk cfg a s.writer.cleared s.leading (begun i out m.2) s.guards.slots m.1)
    (h : s.perform a m = some t) : Inv cfg t := by
  obtain ⟨r, call⟩ := m
  cases call with
  | none =>
    cases h
    exact hs.setReader (by rwa [hpc])
  | some d =>
    obtain ⟨e, c, hcall, rfl⟩ := act_call h
    obtain ⟨-, rfl⟩ := call_begun hpc hcall
    refine hs.calls hcall ?_ (hs.not_saved hpc rfl) hreader
    intro o
    rw [stage_begun]
    exact (nomatch ·)

/-! ### The writer's steps -/

/-- `advance_writer_octile_if_needed` is only called to enter the next octile. -/
theorem Inv.prepareWrite (hwriting : s.writing cfg = true) {num : ℕ}
    (hroom : s.writer.pending + num ≤ s.leading + cfg.octileElements)
    (h : s.prepareWrite cfg num = some t) : Inv cfg t := by
  obtain ⟨⟨ok, hpc⟩, hsaved⟩ := (writing_iff s).1 hwriting
  have hw := hs.writer
  have hreserved := Writer.reserved_of_not_saved hsaved
  have hleading := hw.leading_le
  have hoctile := hw.octile
  have hcleared := hw.reserved_cleared
  rw [hreserved] at hleading hoctile hcleared
  unfold State.prepareWrite at h
  dsimp only at h
  split_ifs at h with hsame
  · cases h
    -- the pending sequence stays in its octile, as it moves by at most one
    have hdiv : (s.writer.pending + num) / cfg.octileElements = s.writer.pending / cfg.octileElements := by
      have hval := congrArg Fin.val (hoctile.symm.trans hsame)
      rw [Config.octileOf_val, Config.octileOf_val] at hval
      have hle : s.writer.pending / cfg.octileElements ≤
          (s.writer.pending + num) / cfg.octileElements := Nat.div_le_div_right (Nat.le_add_right _ _)
      have hup : (s.writer.pending + num) / cfg.octileElements ≤
          (s.writer.pending + cfg.octileElements) / cfg.octileElements :=
        Nat.div_le_div_right (by omega)
      rw [Nat.add_div_right _ cfg.octileElements_pos] at hup
      omega
    exact { hs with
      writer := hw.setPending hsaved (hleading.trans (Nat.le_add_right _ _)) hroom hsame
        (hdiv ▸ hcleared) }
  · obtain ⟨e, c, hcall, rfl⟩ := act_call h
    obtain rfl := call_ofWriter hpc hcall
    have hslot : (s.guards.pc cfg.writer).slot = none := by rw [hpc]; rfl
    have hreader := (hs.readers cfg.writer).unslotted s.guards.slots
      (.check (cfg.octileOf (s.writer.pending + num))) hslot
    have hcalled := hs.called hcall
      (w := { s.writer with pending := s.writer.pending + num, saved := some s.writer.pending })
      ?_ rfl hreader
    · rwa [update_eq_self] at hcalled
    refine ⟨hleading, Nat.le_add_right _ _, hroom, hoctile, hcleared, hw.cleared_le, ?_, ?_, ?_⟩
    · intro b o hstage
      obtain rfl | hb := eq_or_ne b cfg.writer
      · rw [update_self] at hstage
        cases hstage
        exact ⟨rfl, rfl, rfl⟩
      · rw [update_of_ne hb] at hstage
        exact absurd (hw.entering b o hstage).1 hb
    · intro _
      rw [update_self]
      exact (nomatch ·)
    · intro _ hstage
      rw [update_self] at hstage
      cases hstage

theorem Inv.prepared (h : s.prepared cfg = some t) : Inv cfg t := by
  have hw := hs.writer
  have hnone : ∀ {ok}, s.guards.pc cfg.writer = .writer ok →
      ∀ b o, (s.guards.pc b).stage ≠ .entering o := by
    intro ok hpc b o hstage
    obtain rfl := (hw.entering b o hstage).1
    rw [hpc] at hstage
    cases ok <;> cases hstage
  unfold State.prepared at h
  split at h
  next saved hpc hsaved =>
    have hentered := hw.entered (by rw [hsaved]; rfl) (by rw [hpc]; rfl)
    cases h
    refine { hs with writer := ?_ }
    exact ⟨hw.leading_le.trans hw.reserved_le, le_rfl, hw.pending_le, rfl, hentered, hw.cleared_le,
      fun b o hstage => absurd hstage (hnone hpc b o), (nomatch ·), (nomatch ·)⟩
  next saved hpc hsaved =>
    have hreserved : s.writer.reserved = saved := by
      rw [Writer.reserved, hsaved]
      rfl
    have hleading := hw.leading_le
    have hle := hw.reserved_le
    have hpending := hw.pending_le
    have hoctile := hw.octile
    have hcleared := hw.reserved_cleared
    rw [hreserved] at hleading hle hoctile hcleared
    cases h
    refine { hs with writer := ?_ }
    exact ⟨hleading, le_rfl, hle.trans hpending, hoctile, hcleared, hw.cleared_le,
      fun b o hstage => absurd hstage (hnone hpc b o), (nomatch ·), (nomatch ·)⟩
  next => cases h

section

variable (hsaved : s.writer.saved = none)

include hsaved

/-- The writer stores less than a lap ahead of the elements that are still there. -/
theorem Inv.store_ne {x y : ℕ} (hx : s.leading ≤ x) (hlt : x < s.writer.pending)
    (hy : y < s.leading) (hlap : s.writer.cleared ≤ y / cfg.octileElements + 7) :
    x % cfg.numElements ≠ y % cfg.numElements := by
  have hcleared := hs.writer.reserved_cleared
  rw [Writer.reserved_of_not_saved hsaved] at hcleared
  have hle : x / cfg.octileElements ≤ s.writer.pending / cfg.octileElements :=
    Nat.div_le_div_right hlt.le
  exact Laps.emod_ne_emod cfg.octileElements_pos (by omega) (by omega)

theorem Inv.store {x : ℕ} (v : β) (hx : s.leading ≤ x) (hlt : x < s.writer.pending) :
    Inv cfg { s with memory := update s.memory (x % cfg.numElements) v } := { hs with
  memory y hy hlap := by
    show _ = some (update s.memory _ v _)
    rw [update_of_ne (hs.store_ne hsaved hx hlt hy hlap).symm]
    exact hs.memory y hy hlap }

theorem Inv.abandon {num : ℕ} (hnum : num ≤ s.writer.pending - s.leading) :
    Inv cfg { s with writer :=
      { s.writer with
        pending := s.writer.pending - num
        octile := cfg.octileOf (s.writer.pending - num) } } := by
  have hw := hs.writer
  have hleading := hw.leading_le
  have hpending := hw.pending_le
  have hcleared := hw.reserved_cleared
  rw [Writer.reserved_of_not_saved hsaved] at hleading hcleared
  exact ⟨hs.exited, hw.setPending hsaved (by omega) ((Nat.sub_le _ _).trans hpending) rfl
    ((Nat.div_le_div_right (Nat.sub_le _ _)).trans hcleared), hs.memory, hs.readers⟩

theorem Inv.doneWriting : Inv cfg { s with published := s.published ++ s.reserved cfg } := by
  have hw := hs.writer
  have hleading := hw.leading_le
  have hreserved := Writer.reserved_of_not_saved hsaved
  rw [hreserved] at hleading
  have hlength : (s.published ++ s.reserved cfg).length = s.writer.pending := by
    rw [List.length_append, State.reserved, List.length_map, List.length_range']
    exact Nat.add_sub_cancel' hleading
  have hle : s.leading ≤ (s.published ++ s.reserved cfg).length := by
    rw [hlength]
    exact hleading
  refine ⟨hs.exited, ?_, ?_, fun b => (hs.readers b).publish hle⟩
  · refine { hw with leading_le := ?_, pending_le := ?_, cleared_le := ?_ }
    · show (s.published ++ s.reserved cfg).length ≤ _
      rw [hlength, hreserved]
    · show _ ≤ (s.published ++ s.reserved cfg).length + _
      rw [hlength]
      exact Nat.le_add_right _ _
    · exact hw.cleared_le.trans (Nat.add_le_add_right (Nat.div_le_div_right hle) 1)
  · intro y hy hlap
    show (s.published ++ s.reserved cfg)[y]? = _
    by_cases hold : y < s.leading
    · rw [List.getElem?_append_left hold]
      exact hs.memory y hold hlap
    · have hy' : y < (s.published ++ s.reserved cfg).length := hy
      rw [List.getElem?_append_right (Nat.le_of_not_lt hold), State.reserved, List.getElem?_map,
        List.getElem?_range' (by
          show y - s.leading < _
          omega)]
      show some (s.memory ((s.leading + 1 * (y - s.leading)) % cfg.numElements)) = _
      rw [Nat.one_mul, Nat.add_sub_cancel' (Nat.le_of_not_lt hold)]

end

/-! ### Every step -/

variable (hg : Guards.Inv s.guards) (hcounted : Guards.Counted s.guards)

include hg hcounted

theorem Inv.advance {b : Agent} (h : State.step cfg s (.advance b ch) = some t) : Inv cfg t := by
  obtain ⟨u, hact, rfl⟩ := Option.map_eq_some_iff.1 h
  obtain ⟨e, c, hnext, rfl⟩ := act_advance hact
  have hclears := hs.writer.clears hcounted b
  refine ⟨(Guards.State.exited_apply _ _ _).trans hs.exited, ?_, ?_, ?_⟩
  · show WriterOk cfg s.leading (update (s.guards.apply b e).pc b c)
      { s.writer with cleared := clearedBy cfg s.guards b s.writer }
    rw [Guards.State.pc_apply]
    exact hs.writer.advance hnext
  · intro y hy hlap
    exact hs.memory y hy ((le_clearedBy cfg s.guards b s.writer).trans hlap)
  · intro a
    exact ((hs.readers a).clear hclears).noteEvictions hg (hs.live a) (hs.live b) rfl hnext rfl

/-- Every step keeps the invariant. -/
theorem Inv.step {act : Action β} (h : State.step cfg s act = some t) : Inv cfg t := by
  have hw := hs.writer
  cases act with
  | advance b ch => exact hs.advance hg hcounted h
  | construct a v =>
    obtain ⟨e, c, hcall, rfl⟩ := act_call h
    obtain ⟨hidle, heq⟩ := Machine.of_guard hcall
    cases heq
    exact hs.calls hcall (by rintro o ⟨⟩) (hs.not_saved hidle rfl)
      (.of_loose (by rintro x ⟨⟩) rfl (by rintro ⟨⟩) trivial)
  | destroy a =>
    simp only [State.step] at h
    split_ifs at h with hfree
    obtain ⟨e, c, hcall, rfl⟩ := act_call h
    obtain ⟨i, out, howns⟩ : ∃ i out, s.guards.pc a = .owns i out := by
      cases hpc : s.guards.pc a with
      | owns i out => exact ⟨i, out, rfl⟩
      | _ => simp [Guards.State.call, Guards.State.call.ofReader, hpc] at hcall
    obtain ⟨-, rfl⟩ := call_begun howns hcall
    have hcalls := hs.calls (r := s.reader a) hcall (fun o => by rw [stage_begun]; rintro ⟨⟩)
      (hs.not_saved howns rfl) ?_
    · rwa [update_eq_self] at hcalls
    refine .of_loose ((hs.readers a).loose (by rw [hfree.2]; rfl)) (by rw [hfree.2]; rfl) ?_ ?_
    · rw [hfree.1]
      rintro ⟨⟩
    · rw [hfree.1]
      trivial
  | scavengeOrphans a =>
    obtain ⟨e, c, hcall, rfl⟩ := act_call h
    obtain ⟨hidle, heq⟩ := Machine.of_guard hcall
    cases heq
    have hcalls := hs.calls hcall (by rintro o ⟨⟩) (hs.not_saved hidle rfl)
      ((hs.readers a).unslotted _ _ (by rw [hidle]; rfl))
    rwa [update_eq_self] at hcalls
  | openWriter =>
    obtain ⟨e, c, hcall, rfl⟩ := act_call h
    obtain ⟨⟨hidle, -⟩, heq⟩ := Machine.of_guard hcall
    cases heq
    have hcalled := hs.called hcall
      (w := { s.writer with pending := s.leading, octile := cfg.octileOf s.leading, saved := none })
      ?_ rfl ((hs.readers cfg.writer).unslotted _ _ (by rw [hidle]; rfl))
    · rwa [update_eq_self] at hcalled
    refine ⟨le_rfl, le_rfl, Nat.le_add_right _ _, rfl, hw.head.low, hw.cleared_le, ?_, by rintro ⟨⟩,
      by rintro ⟨⟩⟩
    intro b o hstage
    obtain rfl | hb := eq_or_ne b cfg.writer
    · rw [update_self] at hstage
      cases hstage
    · rw [update_of_ne hb] at hstage
      exact absurd (hw.entering b o hstage).1 hb
  | closeWriter =>
    simp only [State.step] at h
    split_ifs at h with hwriting
    obtain ⟨⟨ok, hpc⟩, hsaved⟩ := (writing_iff s).1 hwriting
    obtain ⟨e, c, hcall, rfl⟩ := act_call h
    obtain rfl := call_ofWriter hpc hcall
    have hcalls := hs.calls hcall (by rintro o ⟨⟩) (fun _ => by rw [hsaved]; rfl)
      ((hs.readers cfg.writer).unslotted _ _ (by rw [hpc]; rfl))
    rwa [update_eq_self] at hcalls
  | prepareWrite num =>
    simp only [State.step] at h
    split_ifs at h with hok
    exact hs.prepareWrite hok.1 hok.2.2 h
  | prepared => exact hs.prepared h
  | store x v =>
    obtain ⟨hok, rfl⟩ := Machine.of_guard h
    exact hs.store ((writing_iff s).1 hok.1).2 v hok.2.1 hok.2.2
  | abandon num =>
    obtain ⟨hok, rfl⟩ := Machine.of_guard h
    exact hs.abandon ((writing_iff s).1 hok.1).2 hok.2
  | doneWriting =>
    obtain ⟨hok, rfl⟩ := Machine.of_guard h
    exact hs.doneWriting ((writing_iff s).1 hok).2
  | requestStop a =>
    cases h
    exact hs.setReader (hs.readers a).stop
  | consumeEvictionNotification a =>
    obtain ⟨hidle, rfl⟩ := Machine.of_guard h
    refine hs.setReader { hs.readers a with program := ?_ }
    rw [hidle]
    trivial
  | reader a d =>
    simp only [State.step] at h
    split at h
    next i out hpc =>
      obtain ⟨⟨r, call⟩, hcall, hperform⟩ := Option.bind_eq_some_iff.1 h
      have hreader := hs.readers a
      rw [hpc] at hreader
      exact hs.perform hpc (hreader.call hcall) hperform
    next => cases h
  | read a giveUp =>
    simp only [State.step] at h
    split at h
    next i out hpc =>
      obtain ⟨⟨r, call⟩, hnext, hperform⟩ := Option.bind_eq_some_iff.1 h
      have hreader := hs.readers a
      have hstatus := (hg.owned a i (hs.live a) (by rw [hpc]; rfl)).status
      rw [hpc] at hreader
      exact hs.perform hpc (hreader.next hnext hw.head hstatus) hperform
    next => cases h

end

/-- The guards do not change, or take a step of their machine that is no recovery of counts. -/
def Follows (g g' : Guards.State n) : Prop :=
  g' = g ∨ ∃ m, Guards.Unrecovered g m ∧ (Guards.machine n).step g m = some g'

theorem follows_call {u : State n β} (h : u.act (.call a d) = some t) (hu : u.guards = s.guards) :
    Follows s.guards t.guards := by
  obtain ⟨g, hg, rfl⟩ := Option.map_eq_some_iff.1 h
  rw [hu] at hg
  exact .inr ⟨.call a d, trivial, hg⟩

theorem follows_perform {m : Reader × Option Call} (h : s.perform a m = some t) :
    Follows s.guards t.guards := by
  obtain ⟨r, call⟩ := m
  cases call with
  | none =>
    cases h
    exact .inl rfl
  | some d => exact follows_call h rfl

theorem guards_follow {act : Action β} (h : State.step cfg s act = some t)
    (hact : Unrecovered s act) : Follows s.guards t.guards := by
  cases act with
  | construct a v => exact follows_call h rfl
  | destroy a | closeWriter =>
    simp only [State.step] at h
    split_ifs at h
    exact follows_call h rfl
  | scavengeOrphans a => exact follows_call h rfl
  | advance a ch =>
    obtain ⟨u, hu, rfl⟩ := Option.map_eq_some_iff.1 h
    obtain ⟨g, hg, rfl⟩ := Option.map_eq_some_iff.1 hu
    exact .inr ⟨.advance a { ch with stop := (s.reader a).stopping }, hact, hg⟩
  | openWriter =>
    exact follows_call h rfl
  | prepareWrite num =>
    simp only [State.step, State.prepareWrite] at h
    split_ifs at h
    · cases h
      exact .inl rfl
    · exact follows_call h rfl
  | prepared =>
    simp only [State.step, State.prepared] at h
    split at h
    case h_1 | h_2 =>
      cases h
      exact .inl rfl
    next => cases h
  | reader a d | read a giveUp =>
    simp only [State.step] at h
    split at h
    next =>
      obtain ⟨m, -, hperform⟩ := Option.bind_eq_some_iff.1 h
      exact follows_perform hperform
    next => cases h
  | requestStop a =>
    cases h
    exact .inl rfl
  | _ =>
    obtain ⟨-, rfl⟩ := Machine.of_guard h
    exact .inl rfl

theorem reachable_guards (h : (machine cfg n β).ReachableUnder Unrecovered s) :
    (Guards.machine n).ReachableUnder Guards.Unrecovered s.guards := by
  refine h.invariant (I := fun s => (Guards.machine n).ReachableUnder Guards.Unrecovered s.guards) ?_ ?_
  · rintro s ⟨memory, rfl⟩
    exact .init rfl
  · intro s act t _ hs hact hstep
    rcases guards_follow hstep hact with hsame | ⟨m, hm, hmove⟩
    · exact hsame ▸ hs
    · exact .step hs hm hmove

/-- This holds in every state of every run without a recovery of counts. -/
theorem reachable_inv (h : (machine cfg n β).ReachableUnder Unrecovered s) : Inv cfg s := by
  refine h.invariant (fun s h0 => ?_) fun s act t hreach hs _ hstep => ?_
  · obtain ⟨memory, rfl⟩ := h0
    exact inv_initial cfg memory
  · have hguards := reachable_guards hreach
    exact hs.step (Guards.reachable_inv hguards.reachable)
      (Guards.reachable_counted (Guards.Unrecovered.harmless hguards)) hstep

/-! ### Snapshots -/

/-- **No range that a reader holds is overwritten**, unless its slot has been EVICTED since: the memory
has the elements that were published there, and no store of the writer hits one of them. -/
theorem snapshots_safe (hs : (machine cfg n β).ReachableUnder Unrecovered s) {a : Agent} {h : Range}
    (hheld : h ∈ (s.reader a).held) (hevicted : h.evicted = false) {y : ℕ} (hfirst : h.first ≤ y)
    (hlast : y < h.last) :
    s.published[y]? = some (s.memory (y % cfg.numElements)) ∧
      ∀ x v t, (machine cfg n β).step s (.store x v) = some t →
        x % cfg.numElements ≠ y % cfg.numElements := by
  have hinv := reachable_inv hs
  obtain ⟨i, -, q, -, hlap, hanchor, hle⟩ := (hinv.readers a).held h hheld hevicted
  have hy : y < s.leading := hlast.trans_le hle
  have hoctile : s.writer.cleared ≤ y / cfg.octileElements + 7 := by
    have hmono : cfg.octile h.first ≤ cfg.octile y := Config.octile_mono (by omega)
    rw [Config.octile_natCast y] at hmono
    omega
  refine ⟨hinv.memory y hy hoctile, ?_⟩
  intro x v t hstore
  simp only [machine, State.step] at hstore
  split_ifs at hstore with hok
  exact hinv.store_ne ((writing_iff s).1 hok.1).2 hok.2.1 hok.2.2 hy hoctile

/-- **History.** The last three quarters of a ring, as far as a reader may ask back, are always in
memory, whether or not a reader holds them. This rests on the bound on the writer's unpublished elements,
an eighth of the ring over all its calls of `prepare_write` (`State.step`): the code checks the size of
each call only, and three unpublished writes of an eighth would reach into the history. -/
theorem history_intact (hs : (machine cfg n β).ReachableUnder Unrecovered s) {y : ℕ}
    (hy : y < s.leading) (hrecent : s.leading ≤ y + cfg.octileElements * 6) :
    s.published[y]? = some (s.memory (y % cfg.numElements)) := by
  have hinv := reachable_inv hs
  have hcleared := hinv.writer.cleared_le
  have hdiv : s.leading / cfg.octileElements ≤ y / cfg.octileElements + 6 :=
    (Nat.div_le_div_right hrecent).trans_eq (Nat.add_mul_div_left _ _ cfg.octileElements_pos)
  exact hinv.memory y hy (by omega)

end

instance {n : ℕ} {β : Type*} (s : State n β) (act : Action β) : Decidable (Unrecovered s act) := by
  cases act with
  | advance a ch =>
    exact inferInstanceAs (Decidable
      (Guards.Unrecovered s.guards (.advance a { ch with stop := (s.reader a).stopping })))
  | _ => exact .isTrue trivial

/-- A ring of eight elements, of which a reader may ask for six. -/
def smallRing : Config where
  octileElements := 1
  writer := Guards.theWriter
  maxTrailingElements _ := 6
  octileElements_pos := Nat.one_pos
  maxTrailingElements_le _ := by decide

/-- An agent takes a number of steps in an operation on the guards. -/
def advances (a : Agent) (k : ℕ) : List (Action ℕ) := List.replicate k (.advance a (Guards.plain 0))

/-- A reader is constructed in a slot. -/
def joins (a : Agent) (slot : ℕ) : List (Action ℕ) :=
  .construct a 0 :: List.replicate 9 (.advance a (Guards.plain slot))

/-- The next element is reserved and stored. -/
def writes (x : ℕ) : List (Action ℕ) :=
  [.prepareWrite 1] ++ advances Guards.theWriter 1 ++ [.prepared, .store x (100 + x)]

/-- A reader takes a snapshot. -/
def snapshots (a : Agent) (num : ℕ) : List (Action ℕ) :=
  [.reader a (.startReading num), .read a false] ++ advances a 3 ++ [.read a false, .read a false]

/-- Ten elements are published, so that the ring has been filled and the first ones are gone. Two readers
take snapshots, and the writer stores the next element over the third. -/
def wrappedRun : List (Action ℕ) :=
  joins Guards.stayingReader 0 ++ joins Guards.leavingReader 1 ++
    .openWriter :: advances Guards.theWriter 5 ++
    (List.range 10).flatMap (fun x => writes x ++ [.doneWriting]) ++
    snapshots Guards.stayingReader 6 ++ snapshots Guards.leavingReader 3 ++ writes 10

/-- Where the run ends. -/
def Wrapped (s : State 2 ℕ) : Prop :=
  ⟨4, 10, false⟩ ∈ (s.reader Guards.stayingReader).held ∧
    ⟨7, 10, false⟩ ∈ (s.reader Guards.leavingReader).held ∧
    s.published = (List.range 10).map (100 + ·) ∧ s.memory 2 = 110

theorem exists_wrapped :
    ∃ s : State 2 ℕ, (machine smallRing 2 ℕ).ReachableUnder Unrecovered s ∧ Wrapped s := by
  unfold Wrapped
  exact Machine.exists_reachableUnder_of_exec (s := State.initial 2 fun _ => 0) wrappedRun ⟨_, rfl⟩
    (by decide +kernel)

/-- Six elements of one reader are in memory, across the end of the ring, and no store hits the last one
of the other. -/
theorem snapshots_safe_range : ∃ s : State 2 ℕ, (machine smallRing 2 ℕ).ReachableUnder Unrecovered s ∧
    Wrapped s ∧ (∀ y, 4 ≤ y → y < 10 → s.published[y]? = some (s.memory (y % 8))) ∧
    ∀ x v t, (machine smallRing 2 ℕ).step s (.store x v) = some t → x % 8 ≠ 9 % 8 := by
  obtain ⟨s, hs, hwrapped⟩ := exists_wrapped
  exact ⟨s, hs, hwrapped, fun y hfirst hlast => (snapshots_safe hs hwrapped.1 rfl hfirst hlast).1,
    (snapshots_safe hs hwrapped.2.1 rfl (by decide) (by decide)).2⟩

/-- The oldest element of the history is behind the one that was stored over the third. -/
theorem history_intact_wrapped : ∃ s : State 2 ℕ,
    (machine smallRing 2 ℕ).ReachableUnder Unrecovered s ∧ Wrapped s ∧
    ∀ y : ℕ, y < 10 → 4 ≤ y → s.published[y]? = some (s.memory (y % 8)) := by
  obtain ⟨s, hs, hwrapped⟩ := exists_wrapped
  have hleading : s.leading = 10 := by
    rw [State.leading, hwrapped.2.2.1]
    rfl
  refine ⟨s, hs, hwrapped, fun y hy hrecent => history_intact hs (hleading ▸ hy) ?_⟩
  rw [hleading]
  exact Nat.add_le_add_right hrecent 6

end Sintra.Ring.Snapshots
