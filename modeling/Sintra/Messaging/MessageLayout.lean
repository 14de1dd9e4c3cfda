import Sintra.Messaging.MessageFrame

/-!
# The layout of a message frame

Both passes over the arguments are sums of aligned spans (`finalOffset`), one over the types as `vb_size`
counts them and one over the types as the constructor stores them, and both reject exactly the sums that
do not fit a frame: the checks between are weaker, and the sum only grows. Each payload stands behind the
ones before it (`Laid`), and what a variable buffer records is relative to itself, so that a copy of the
frame is read like the original (`Laid.relocate`).
-/

namespace Sintra.Messaging

open Option

open ArgType (counted transformed)

/-! ### Alignment -/

/-- The next multiple of `a`. -/
def alignUp (v a : ℕ) : ℕ := if v % a = 0 then v else v + (a - v % a)

theorem le_alignUp (v a : ℕ) : v ≤ alignUp v a := by
  unfold alignUp
  split_ifs <;> omega

theorem alignUp_mod (v : ℕ) {a : ℕ} (ha : 0 < a) : alignUp v a % a = 0 := by
  unfold alignUp
  split_ifs with h
  · exact h
  · have hlt := Nat.mod_lt v ha
    have hsum : v + (a - v % a) = a * (v / a) + a := by
      have hv := Nat.div_add_mod v a
      omega
    rw [hsum, Nat.mul_add_mod_self_left, Nat.mod_self]

theorem ElemType.align_pos (e : ElemType) : 0 < e.align :=
  Nat.pos_of_dvd_of_pos e.align_dvd (by decide)

variable {offset : ℕ}

/-- An aligned offset of an aligned frame is an aligned address. -/
theorem ElemType.data_mod (e : ElemType) {start : ℕ}
    (hstart : start % messageFrameAlignment = 0) : (start + alignUp offset e.align) % e.align = 0 := by
  have hdvd : e.align ∣ start := e.align_dvd.trans (Nat.dvd_of_mod_eq_zero hstart)
  exact Nat.mod_eq_zero_of_dvd
    (Nat.dvd_add hdvd (Nat.dvd_of_mod_eq_zero (alignUp_mod offset e.align_pos)))

variable {v x : ℕ}

theorem alignUpSize_of_le {a : ℕ} (ha : 0 < a) (h : alignUp v a ≤ sizeMax) :
    alignUpSize v a = .ok (alignUp v a) := by
  unfold alignUp at h ⊢
  unfold alignUpSize
  by_cases hone : a ≤ 1
  · obtain rfl : a = 1 := by omega
    rw [if_pos hone, if_pos (Nat.mod_one v)]
  · rw [if_neg hone]
    by_cases hzero : v % a = 0
    · rw [if_pos hzero, if_pos hzero]
    · rw [if_neg hzero] at h
      rw [if_neg hzero, if_neg hzero, if_neg (by omega)]

theorem messageFrameSizeLimit_le : messageFrameSizeLimit ≤ uint32Max := by decide

theorem uint32Max_le : uint32Max ≤ sizeMax := by decide

/-- The frame of a span fits. -/
def Fits (spanEnd : ℕ) : Prop := alignUp spanEnd messageFrameAlignment < messageFrameSizeLimit

theorem Fits.le (h : Fits v) : v ≤ uint32Max := by
  have hle := le_alignUp v messageFrameAlignment
  have hlimit := messageFrameSizeLimit_le
  unfold Fits at h
  omega

theorem Fits.mono {w : ℕ} (hvw : v ≤ w) (h : Fits w) : Fits v := by
  unfold Fits alignUp messageFrameAlignment at *
  split_ifs at h ⊢ <;> simp only [messageFrameSizeLimit, messageRingSize] at h ⊢ <;> omega

theorem finishMessageFrameSize_of_fits (h : Fits v) :
    finishMessageFrameSize v = .ok (alignUp v messageFrameAlignment) := by
  have hlimit := messageFrameSizeLimit_le
  have hmax := uint32Max_le
  unfold Fits at h
  rw [finishMessageFrameSize, alignUpSize_of_le (by decide) (by omega)]
  change (if _ then _ else if _ then _ else _) = _
  rw [if_neg (by omega), if_neg (by omega)]

/-- Elements whose bytes are in range pass the check of their number. -/
theorem ElemType.not_count_gt (e : ElemType) {n : ℕ} (h : n * e.size ≤ sizeMax) :
    ¬n > sizeMax / e.size := by
  rw [gt_iff_lt, not_lt, Nat.le_div_iff_mul_le e.size_pos]
  exact h

/-- The end of `n` elements behind `offset`. -/
def ElemType.spanEnd (e : ElemType) (offset n : ℕ) : ℕ := alignUp offset e.align + n * e.size

theorem ElemType.le_spanEnd (e : ElemType) (offset n : ℕ) : offset ≤ e.spanEnd offset n :=
  (le_alignUp _ _).trans (Nat.le_add_right _ _)

/-- Where the payloads end, once that of `f` stands behind `offset`. A pass over the arguments reads each
type in its own way: `vb_size` as `counted`, the constructor as `transformed`. -/
def Field.payloadEnd (elem : ArgType → Option ElemType) (f : Field) (value : Value f.type)
    (offset : ℕ) : ℕ :=
  match elem f.type with
  | none => offset
  | some e => e.spanEnd offset value.elements.length

/-- Where the payloads end. -/
def finalOffset (elem : ArgType → Option ElemType) (offset : ℕ) : (fs : List Field) → Args fs → ℕ
  | [], _ => offset
  | f :: fs, (value, args) => finalOffset elem (f.payloadEnd elem value offset) fs args

section

variable (elem : ArgType → Option ElemType)

/-- A payload ends behind the offset at which it was put. -/
theorem Field.le_payloadEnd (f : Field) (value : Value f.type) (offset : ℕ) :
    offset ≤ f.payloadEnd elem value offset := by
  unfold Field.payloadEnd
  cases elem f.type with
  | none => exact le_rfl
  | some e => exact e.le_spanEnd _ _

/-- The sum only grows. -/
theorem le_finalOffset (fs : List Field) (args : Args fs) (offset : ℕ) :
    offset ≤ finalOffset elem offset fs args := by
  induction fs generalizing offset with
  | nil => exact le_rfl
  | cons f fs ih => exact (f.le_payloadEnd elem args.1 offset).trans (ih args.2 _)

variable {elem}

/-- The payload of a field that has one. -/
theorem Field.payloadEnd_of_mem (f : Field) (value : Value f.type) (offset : ℕ) {e : ElemType}
    (he : e ∈ elem f.type) : f.payloadEnd elem value offset = e.spanEnd offset value.elements.length := by
  rw [Field.payloadEnd, mem_def.1 he]

end

variable {f : Field}

/-- A variable buffer takes the place of its argument. -/
theorem Field.extent_of_mem {e : ElemType} (he : e ∈ f.type.transformed) :
    f.extent = sizeofVariableBuffer := if_pos (isSome_of_mem he)

variable {fs : List Field} {args : Args fs}

/-- The end of the payloads as `vb_size` counts them. -/
def MessageType.countedEnd (m : MessageType) (args : Args m.fields) : ℕ :=
  finalOffset counted m.size m.fields args

/-- What the constructor of a `variable_buffer` leaves behind, if its payload is put at `offset`. -/
def placed (e : ElemType) (container : List (List UInt8)) (start this offset : ℕ) (memory : Memory) :
    Memory :=
  let memory := memory.store 8 this (container.length * e.size)
  let memory := memory.writeAll e.size (start + alignUp offset e.align) container
  let memory := memory.store 8 (this + 8) (alignUp offset e.align - (this - start))
  memory.store 4 (start + offsetBytesToNextMessage) (e.spanEnd offset container.length)

/-- The thread is constructing the message at `start`, and the payloads so far end at `offset`. -/
structure Constructs (start offset : ℕ) (s : Thread) : Prop where
  context : s.context = some ⟨start, start + offsetBytesToNextMessage⟩
  cursor : s.memory.load 4 (start + offsetBytesToNextMessage) = offset

section

variable {e : ElemType} {container : List (List UInt8)} {start this offset : ℕ} {s t : Thread}

theorem variableBuffer_of_fits (hs : Constructs start offset s)
    (hstart : start % messageFrameAlignment = 0) (hfits : Fits (e.spanEnd offset container.length)) :
    variableBuffer e container this s =
      .ok { s with memory := placed e container start this offset s.memory } := by
  have hend : alignUp offset e.align + container.length * e.size ≤ uint32Max := hfits.le
  have hmax := uint32Max_le
  have halign : (start + alignUp offset e.align) % e.align = 0 := e.data_mod hstart
  rw [variableBuffer, if_neg (e.not_count_gt (by omega))]
  simp only [hs.context, hs.cursor]
  rw [if_neg (by omega), alignUpSize_of_le e.align_pos (by omega)]
  simp only [bind, Except.bind]
  rw [if_neg (by omega), if_neg (by omega), if_neg (by omega)]
  have hfinish := finishMessageFrameSize_of_fits hfits
  unfold ElemType.spanEnd at hfinish
  simp only [hfinish, ne_eq, halign, not_true_eq_false, if_false]
  rfl

/-- A variable buffer at offset `d` of its message has this container, stored behind `offset`. -/
structure Stored (memory : Memory) (start offset : ℕ) (e : ElemType) (d : ℕ)
    (container : List (List UInt8)) : Prop where
  size : sizeBytes memory (start + d) = container.length * e.size
  data : dataOffsetBytes memory (start + d) = alignUp offset e.align - d
  elements : memory.readAll e.size (start + alignUp offset e.align) container.length = container

variable {memory : Memory}

/-- What is stored is found wherever the message is. -/
theorem Stored.relocate {memory' : Memory} {dst d : ℕ}
    (h : Stored memory start offset e d container)
    (hbuffer : ∀ i < sizeofVariableBuffer, memory' (dst + d + i) = memory (start + d + i))
    (hpayload : ∀ i, offset ≤ i → i < e.spanEnd offset container.length →
      memory' (dst + i) = memory (start + i)) : Stored memory' dst offset e d container := by
  have hsize : sizeBytes memory' (dst + d) = sizeBytes memory (start + d) :=
    Memory.load_congr fun i hi => hbuffer i (by unfold sizeofVariableBuffer; omega)
  have hdata : dataOffsetBytes memory' (dst + d) = dataOffsetBytes memory (start + d) := by
    refine Memory.load_congr fun i hi => ?_
    have hbyte := hbuffer (8 + i) (by unfold sizeofVariableBuffer; omega)
    rwa [← Nat.add_assoc, ← Nat.add_assoc] at hbyte
  have helements : memory'.readAll e.size (dst + alignUp offset e.align) container.length =
      memory.readAll e.size (start + alignUp offset e.align) container.length := by
    refine Memory.readAll_congr fun i hi => ?_
    rw [Nat.add_assoc, Nat.add_assoc]
    refine hpayload _ ((le_alignUp offset e.align).trans (Nat.le_add_right _ _)) ?_
    exact Nat.add_lt_add_left hi _
  exact ⟨hsize.trans h.size, hdata.trans h.data, helements.trans h.elements⟩

theorem placed_apply_of_not {d x : ℕ}
    (hcontainer : ∀ b ∈ container, b.length = e.size) (hx : x < start + offset)
    (hthis : x < start + d ∨ start + d + sizeofVariableBuffer ≤ x)
    (hlength : x < start + offsetBytesToNextMessage ∨ start + offsetBytesToNextMessage + 4 ≤ x) :
    placed e container start (start + d) offset memory x = memory x := by
  have hle := le_alignUp offset e.align
  simp only [sizeofVariableBuffer] at hthis
  rw [placed, Memory.store_apply_of_not hlength, Memory.store_apply_of_not (by omega),
    Memory.writeAll_apply_of_not hcontainer (by omega), Memory.store_apply_of_not (by omega)]

theorem load_placed (hfits : Fits (e.spanEnd offset container.length)) :
    (placed e container start this offset memory).load 4 (start + offsetBytesToNextMessage) =
      e.spanEnd offset container.length :=
  Memory.load_store (Nat.lt_of_le_of_lt hfits.le (by decide))

theorem stored_placed {d : ℕ} (hcontainer : ∀ b ∈ container, b.length = e.size)
    (hd : messagePrefixEnd ≤ d) (hoffset : d + sizeofVariableBuffer ≤ offset)
    (hfits : Fits (e.spanEnd offset container.length)) :
    Stored (placed e container start (start + d) offset memory) start offset e d container := by
  have hle := le_alignUp offset e.align
  have hend : alignUp offset e.align + container.length * e.size ≤ uint32Max := hfits.le
  have hlength : offsetBytesToNextMessage + 4 ≤ messagePrefixEnd := by decide
  simp only [sizeofVariableBuffer, uint32Max] at hoffset hend
  constructor
  · rw [sizeBytes, placed, Memory.load_store_of_not (by omega), Memory.load_store_of_not (by omega),
      Memory.load_writeAll_of_not hcontainer (by omega), Memory.load_store (by omega)]
  · have hself : start + d - start = d := Nat.add_sub_cancel_left start d
    rw [dataOffsetBytes, placed, hself, Memory.load_store_of_not (by omega),
      Memory.load_store (by omega)]
  · rw [placed, Memory.readAll_store_of_not (by omega), Memory.readAll_store_of_not (by omega),
      Memory.readAll_writeAll hcontainer]

end

/-! ### The body -/

/-- The variable buffers of a message have their containers, each behind the ones before it. -/
def Laid (memory : Memory) (start : ℕ) : ℕ → (fs : List Field) → Args fs → Prop
  | _, [], _ => True
  | offset, f :: fs, (value, args) =>
    (∀ e ∈ f.type.transformed, Stored memory start offset e f.offset value.elements) ∧
      Laid memory start (f.payloadEnd transformed value offset) fs args

/-- Byte `i` of the message belongs to none of the fields. -/
def Outside (fs : List Field) (i : ℕ) : Prop :=
  ∀ f ∈ fs, i < f.offset ∨ f.offset + f.extent ≤ i

theorem outside_cons {i : ℕ} :
    Outside (f :: fs) i ↔ Outside [f] i ∧ Outside fs i := by
  simp [Outside]

/-- No field is a variable buffer. -/
theorem plain_cons : argsRequireVarbuffer (f :: fs) = false ↔
    f.type.transformed = none ∧ argsRequireVarbuffer fs = false := by
  simp [argsRequireVarbuffer]

theorem Laid.relocate {memory memory' : Memory} {start dst : ℕ} (h : Laid memory start offset fs args)
    (hfields : ∀ i, ¬Outside fs i → memory' (dst + i) = memory (start + i))
    (hpayload : ∀ i, offset ≤ i → i < finalOffset transformed offset fs args →
      memory' (dst + i) = memory (start + i)) : Laid memory' dst offset fs args := by
  induction fs generalizing offset with
  | nil => trivial
  | cons f fs ih =>
    obtain ⟨value, args⟩ := args
    obtain ⟨hstored, hlaid⟩ := h
    have hnext := f.le_payloadEnd transformed value offset
    have hlast := le_finalOffset transformed fs args (f.payloadEnd transformed value offset)
    refine ⟨fun e he => (hstored e he).relocate ?_ ?_, ih hlaid ?_ ?_⟩
    · intro i hi
      rw [Nat.add_assoc, Nat.add_assoc]
      refine hfields _ fun hout => ?_
      have hextent := f.extent_of_mem he
      have hf := hout f List.mem_cons_self
      omega
    · intro i hi hlt
      refine hpayload i hi (lt_of_lt_of_le ?_ hlast)
      rwa [f.payloadEnd_of_mem _ _ he]
    · intro i hi
      exact hfields i fun hout => hi (outside_cons.1 hout).2
    · intro i hi hlt
      exact hpayload i (hnext.trans hi) hlt

section

variable {start offset : ℕ} {s t : Thread}

/-- Byte `i` is not in the length of the message. -/
def OffLength (i : ℕ) : Prop := i < offsetBytesToNextMessage ∨ offsetBytesToNextMessage + 4 ≤ i

/-- A plain field is constructed. -/
theorem Field.construct_plain (f : Field) (value : Value f.type) (start : ℕ)
    (htype : f.type.transformed = none) (s : Thread) :
    ∃ memory, f.construct start value s = .ok { s with memory := memory } ∧
      ∀ i, Outside [f] i → memory (start + i) = s.memory (start + i) := by
  rw [Field.construct, htype]
  refine ⟨_, rfl, fun i hout => Memory.write_apply_of_not ?_⟩
  have hf := hout f List.mem_cons_self
  rw [Field.extent, htype] at hf
  rw [value.bytes_length]
  simp only [isSome_none, Bool.false_eq_true, if_false] at hf
  omega

/-- A field is constructed: the other fields and the payloads before it stay as they are. -/
theorem Field.construct_of_fits (f : Field) (value : Value f.type) (hs : Constructs start offset s)
    (hstart : start % messageFrameAlignment = 0)
    (hbehind : messagePrefixEnd ≤ f.offset)
    (hfits : f.type.transformed.isSome = true → Fits (f.payloadEnd transformed value offset)) :
    ∃ t, f.construct start value s = .ok t ∧
      Constructs start (f.payloadEnd transformed value offset) t ∧
      (f.offset + f.extent ≤ offset →
        ∀ e ∈ f.type.transformed, Stored t.memory start offset e f.offset value.elements) ∧
      ∀ i < offset, Outside [f] i → OffLength i → t.memory (start + i) = s.memory (start + i) := by
  cases htype : f.type.transformed with
  | none =>
    obtain ⟨memory, heq, hkept⟩ := f.construct_plain value start htype s
    refine ⟨_, heq, ⟨hs.context, ?_⟩, fun _ => nofun, fun i _ hout _ => hkept i hout⟩
    rw [Field.payloadEnd, htype, ← hs.cursor]
    refine Memory.load_congr fun i hi => ?_
    rw [Nat.add_assoc]
    refine hkept _ fun g hg => .inl ?_
    obtain rfl := List.mem_singleton.1 hg
    have hlength : offsetBytesToNextMessage + 4 ≤ messagePrefixEnd := by decide
    omega
  | some e =>
    have hextent := f.extent_of_mem htype
    have hend := f.payloadEnd_of_mem value offset htype
    have hspan : Fits (e.spanEnd offset value.elements.length) := by
      rw [← hend]
      exact hfits (by rw [htype]; rfl)
    have hiterator : e ∈ f.type.iteratorValueType := by
      unfold transformed at htype
      split_ifs at htype
      exact htype
    have hcontainer := value.elements_length e hiterator
    rw [Field.construct, htype, hend, hextent]
    refine ⟨_, variableBuffer_of_fits hs hstart hspan, ⟨hs.context, load_placed hspan⟩, ?_, ?_⟩
    · intro hinside e' he'
      obtain rfl := some.inj he'
      exact stored_placed hcontainer hbehind hinside hspan
    · intro i hi hout hlength
      have hf := hout f List.mem_cons_self
      unfold OffLength at hlength
      exact placed_apply_of_not hcontainer (by omega) (by omega) (by omega)

variable {fs : List Field}

/-- The fields are constructed, if the payloads fit. The payloads are as they should be if they stand
behind the fields. -/
theorem constructBody_of_fits (args : Args fs) (hs : Constructs start offset s)
    (hstart : start % messageFrameAlignment = 0) (hbehind : ∀ f ∈ fs, messagePrefixEnd ≤ f.offset)
    (hdisjoint : fs.Pairwise fun f g =>
      f.offset + f.extent ≤ g.offset ∨ g.offset + g.extent ≤ f.offset)
    (hfits : argsRequireVarbuffer fs = true → Fits (finalOffset transformed offset fs args)) :
    ∃ t, constructBody start fs args s = .ok t ∧
      Constructs start (finalOffset transformed offset fs args) t ∧
      ((∀ f ∈ fs, f.offset + f.extent ≤ offset) → Laid t.memory start offset fs args) ∧
      ∀ i < offset, Outside fs i → OffLength i → t.memory (start + i) = s.memory (start + i) := by
  induction fs generalizing offset s with
  | nil => exact ⟨s, rfl, hs, fun _ => trivial, fun _ _ _ _ => rfl⟩
  | cons f fs ih =>
    obtain ⟨value, args⟩ := args
    have hnext := f.le_payloadEnd transformed value offset
    have hlast := le_finalOffset transformed fs args (f.payloadEnd transformed value offset)
    obtain ⟨hfirst, hrest⟩ := List.forall_mem_cons.1 hbehind
    obtain ⟨hapart, hdisjoint⟩ := List.pairwise_cons.1 hdisjoint
    rw [argsRequireVarbuffer, List.any_cons, Bool.or_eq_true, finalOffset] at hfits
    obtain ⟨s₁, heq₁, hs₁, hstored, hkept₁⟩ := f.construct_of_fits value hs hstart hfirst
      fun hf => (hfits (.inl hf)).mono hlast
    obtain ⟨t, heq, ht, hlaid, hkept⟩ := ih args hs₁ hrest hdisjoint fun hfs => hfits (.inr hfs)
    refine ⟨t, by rw [constructBody, heq₁]; exact heq, ht, fun hinside => ?_, ?_⟩
    · -- the later fields leave this one and its payload alone
      obtain ⟨hinside, hlater⟩ := List.forall_mem_cons.1 hinside
      refine ⟨fun e he => ?_, hlaid fun g hg => (hlater g hg).trans hnext⟩
      have hextent := f.extent_of_mem he
      have hend := f.payloadEnd_of_mem value offset he
      have hlength : offsetBytesToNextMessage + 4 ≤ messagePrefixEnd := by decide
      refine (hstored hinside e he).relocate ?_ ?_
      · intro i hi
        rw [Nat.add_assoc]
        refine hkept _ (by omega) (fun g hg => ?_) (.inr (by omega))
        have hg := hapart g hg
        omega
      · intro i hi hlt
        refine hkept i (by omega) (fun g hg => .inr ?_) (.inr (by omega))
        exact (hlater g hg).trans hi
    · intro i hi hout hlength
      obtain ⟨hf, hfs⟩ := outside_cons.1 hout
      rw [hkept i (by omega) hfs hlength, hkept₁ i hi hf hlength]

theorem payloadEnd_plain {f : Field} {value : Value f.type} (h : f.type.transformed = none) :
    f.payloadEnd transformed value offset = offset := by
  rw [Field.payloadEnd, h]

/-- Without variable buffers there is no payload. -/
theorem finalOffset_plain (args : Args fs) (h : argsRequireVarbuffer fs = false) :
    finalOffset transformed offset fs args = offset := by
  induction fs generalizing offset with
  | nil => rfl
  | cons f fs ih =>
    obtain ⟨hf, hrest⟩ := plain_cons.1 h
    obtain ⟨value, args⟩ := args
    rw [finalOffset, payloadEnd_plain hf, ih args hrest]

theorem laid_plain {memory : Memory} {args : Args fs} (h : argsRequireVarbuffer fs = false) :
    Laid memory start offset fs args := by
  induction fs generalizing offset with
  | nil => trivial
  | cons f fs ih =>
    obtain ⟨hf, hrest⟩ := plain_cons.1 h
    refine ⟨?_, ih hrest⟩
    rw [hf]
    exact nofun

theorem constructBody_plain (args : Args fs) (start : ℕ) (h : argsRequireVarbuffer fs = false)
    (s : Thread) : ∃ t, constructBody start fs args s = .ok t ∧
      ∀ i, Outside fs i → t.memory (start + i) = s.memory (start + i) := by
  induction fs generalizing s with
  | nil => exact ⟨s, rfl, fun _ _ => rfl⟩
  | cons f fs ih =>
    obtain ⟨hf, hrest⟩ := plain_cons.1 h
    obtain ⟨value, args⟩ := args
    obtain ⟨memory, heq₁, hkept₁⟩ := f.construct_plain value start hf s
    obtain ⟨t, heq, hkept⟩ := ih args hrest { s with memory := memory }
    refine ⟨t, by rw [constructBody, heq₁]; exact heq, fun i hout => ?_⟩
    obtain ⟨hf, hfs⟩ := outside_cons.1 hout
    exact (hkept i hfs).trans (hkept₁ i hf)

end

/-! ### The message -/

section

variable {m : MessageType} {args : Args m.fields} {start : ℕ} {memory : Memory}

theorem MessageType.outside (m : MessageType) {i : ℕ} (hi : i < messagePrefixEnd) :
    Outside m.fields i :=
  fun f hf => .inl (hi.trans_le (m.inside f hf).1)

/-- The variable buffers and their payloads are behind the prefix. -/
theorem Laid.behind {memory' : Memory} {dst : ℕ} (h : Laid memory start m.size m.fields args)
    (hsame : ∀ i, messagePrefixEnd ≤ i → i < finalOffset transformed m.size m.fields args →
      memory' (dst + i) = memory (start + i)) : Laid memory' dst m.size m.fields args := by
  have hlast := le_finalOffset transformed m.fields args m.size
  refine h.relocate (fun i hi => ?_) fun i hi hlt => hsame i ?_ hlt
  · have hlow : messagePrefixEnd ≤ i := by
      by_contra hlt
      exact hi (m.outside (Nat.lt_of_not_le hlt))
    refine hsame i hlow ?_
    by_contra hlt
    exact hi fun f hf => .inr (((m.inside f hf).2.trans hlast).trans (Nat.le_of_not_lt hlt))
  · have hsize := m.size_ge
    unfold sizeofMessagePrefix at hsize
    unfold messagePrefixEnd
    omega

/-- Where the constructor puts the first payload: a stored length has 32 bits. -/
def MessageType.cursor (m : MessageType) : ℕ :=
  if argsRequireVarbuffer m.fields then m.size % 256 ^ 4 else m.size

/-- The end of the payloads as the constructor puts them. -/
def MessageType.storedEnd (m : MessageType) (args : Args m.fields) : ℕ :=
  finalOffset transformed m.cursor m.fields args

/-- A message with these arguments is at `start`. -/
structure Built (m : MessageType) (args : Args m.fields) (memory : Memory) (start : ℕ) : Prop where
  magic : memory.load 8 start = messageMagic
  length : bytesToNextMessage memory start =
    alignUp (finalOffset transformed m.size m.fields args) messageFrameAlignment
  laid : Laid memory start m.size m.fields args

/-- A message is read from its first two members and from what is behind the prefix. -/
theorem Built.relocate {memory' : Memory} {dst : ℕ} (h : Built m args memory start)
    (hhead : ∀ i < offsetBytesToNextMessage + 4, memory' (dst + i) = memory (start + i))
    (hbehind : ∀ i, messagePrefixEnd ≤ i → i < finalOffset transformed m.size m.fields args →
      memory' (dst + i) = memory (start + i)) : Built m args memory' dst where
  magic := by
    rw [← h.magic]
    exact Memory.load_congr fun i hi => hhead i (by unfold offsetBytesToNextMessage; omega)
  length := by
    rw [← h.length]
    refine Memory.load_congr fun i hi => ?_
    rw [Nat.add_assoc, Nat.add_assoc]
    exact hhead _ (by omega)
  laid := h.laid.behind hbehind

theorem Built.setTypeId (h : Built m args memory start) :
    Built m args (memory.store 8 (start + offsetMessageTypeId) m.id) start := by
  unfold offsetMessageTypeId
  refine h.relocate (fun i hi => Memory.store_apply_of_not (.inl ?_)) fun i hi _ =>
    Memory.store_apply_of_not (.inr ?_)
  · unfold offsetBytesToNextMessage at hi
    omega
  · unfold messagePrefixEnd at hi
    omega

/-- The magic and the length are stored before the body is constructed. -/
theorem load_magic {v : ℕ} : ((memory.store 8 start messageMagic).store 4
    (start + offsetBytesToNextMessage) v).load 8 start = messageMagic := by
  rw [Memory.load_store_of_not (.inl (by unfold offsetBytesToNextMessage; omega)),
    Memory.load_store (by decide)]

/-- The constructor accepts payloads that fit. The message is as it should be if its size fits too. -/
theorem construct_of_fits (args : Args m.fields) (hstart : start % messageFrameAlignment = 0)
    (hfits : Fits (m.storedEnd args)) (s : Thread) :
    ∃ t, construct m start args s = .ok t ∧ (m.cursor = m.size → Built m args t.memory start) := by
  have hsize : messagePrefixEnd ≤ m.size := (by decide : _ ≤ sizeofMessagePrefix).trans m.size_ge
  have hhead : ∀ i < 12, Outside m.fields i := fun i hi => m.outside (hi.trans (by decide))
  have hlength : alignUp (m.storedEnd args) messageFrameAlignment < 256 ^ 4 :=
    Nat.lt_trans hfits (by decide)
  unfold construct
  by_cases hrequire : argsRequireVarbuffer m.fields = true
  · have hcursor : m.cursor = m.size % 256 ^ 4 := if_pos hrequire
    have hbegun : Constructs start m.cursor ⟨(s.memory.store 8 start messageMagic).store 4
        (start + offsetBytesToNextMessage) m.size, some ⟨start, start + offsetBytesToNextMessage⟩⟩ :=
      ⟨rfl, Memory.load_store_mod.trans hcursor.symm⟩
    obtain ⟨t, heq, ht, hlaid, hkept⟩ := constructBody_of_fits args hbegun hstart
      (fun f hf => (m.inside f hf).1) m.disjoint fun _ => hfits
    have hfinish : finishMessageFrameSize (t.memory.load 4 (start + offsetBytesToNextMessage)) =
        .ok (alignUp (m.storedEnd args) messageFrameAlignment) := by
      rw [ht.cursor]
      exact finishMessageFrameSize_of_fits hfits
    simp only [if_pos hrequire, heq, bind, Except.bind, hfinish]
    refine ⟨_, rfl, fun hwhole => Built.setTypeId ⟨?_, ?_, ?_⟩⟩
    · rw [Memory.load_store_of_not (.inl (by unfold offsetBytesToNextMessage; omega)), ← load_magic]
      exact Memory.load_congr fun i hi => hkept i (by unfold messagePrefixEnd at hsize; omega)
        (hhead i (by omega)) (.inl hi)
    · rw [← hwhole]
      exact Memory.load_store hlength
    · rw [hwhole] at hlaid
      refine (hlaid fun f hf => (m.inside f hf).2).behind fun i hi _ =>
        Memory.store_apply_of_not (.inr ?_)
      unfold messagePrefixEnd at hi
      unfold offsetBytesToNextMessage
      omega
  · have hplain : argsRequireVarbuffer m.fields = false := by simpa using hrequire
    have hend : m.storedEnd args = m.size := by
      rw [MessageType.storedEnd, finalOffset_plain args hplain, MessageType.cursor, if_neg hrequire]
    rw [hend] at hlength hfits
    obtain ⟨t, heq, hkept⟩ := constructBody_plain args start hplain
      ⟨(s.memory.store 8 start messageMagic).store 4 (start + offsetBytesToNextMessage)
        (alignUp m.size messageFrameAlignment), s.context⟩
    simp only [if_neg hrequire, heq, bind, Except.bind, finishMessageFrameSize_of_fits hfits]
    refine ⟨_, rfl, fun _ => Built.setTypeId ⟨?_, ?_, laid_plain hplain⟩⟩
    · rw [← load_magic]
      exact Memory.load_congr fun i hi => hkept i (hhead i (by omega))
    · have hsame : ∀ i < 4, t.memory (start + offsetBytesToNextMessage + i) =
          ((s.memory.store 8 start messageMagic).store 4 (start + offsetBytesToNextMessage)
            (alignUp m.size messageFrameAlignment)) (start + offsetBytesToNextMessage + i) := by
        intro i hi
        rw [Nat.add_assoc]
        exact hkept _ (hhead _ (by unfold offsetBytesToNextMessage; omega))
      rw [finalOffset_plain args hplain, bytesToNextMessage, Memory.load_congr hsame,
        Memory.load_store hlength]

end

/-! ### Copies of a frame -/

/-- The frame is copied any number of times to aligned addresses, by a relay, into the storage of a
reader or into that of an owner. -/
inductive Copied (m : MessageType) (memory : Memory) (start : ℕ) : Memory → ℕ → Prop
  | refl : Copied m memory start memory start
  | relay {memory' : Memory} {src dst : ℕ} (custodyIdentity occurrence : ℕ) :
      Copied m memory start memory' src → dst % messageFrameAlignment = 0 →
        Copied m memory start (relay memory' src dst custodyIdentity occurrence) dst
  | fetch {memory' memory'' : Memory} {src rangeEnd frame : ℕ} :
      Copied m memory start memory' src → frame % messageFrameAlignment = 0 →
        copyNextFrame memory' src rangeEnd frame = .ok memory'' → Copied m memory start memory'' frame
  | own {memory' memory'' : Memory} {src storage : ℕ} :
      Copied m memory start memory' src → storage % messageFrameAlignment = 0 →
        (storage + bytesToNextMessage memory' src ≤ src ∨
          src + bytesToNextMessage memory' src ≤ storage) →
        copyMessageFrame m memory' src storage = .ok memory'' → Copied m memory start memory'' storage

section

variable {m : MessageType} {args : Args m.fields} {start dst : ℕ} {memory memory' : Memory}

theorem Copied.aligned (h : Copied m memory start memory' dst)
    (hstart : start % messageFrameAlignment = 0) : dst % messageFrameAlignment = 0 := by
  cases h with
  | refl => exact hstart
  | relay _ _ _ hdst | fetch _ hdst | own _ hdst => exact hdst

theorem Built.size_le_length (h : Built m args memory start) :
    sizeofMessagePrefix ≤ m.size ∧ m.size ≤ finalOffset transformed m.size m.fields args ∧
      finalOffset transformed m.size m.fields args ≤ bytesToNextMessage memory start := by
  rw [h.length]
  exact ⟨m.size_ge, le_finalOffset _ _ _ _, le_alignUp _ _⟩

theorem Built.copy (h : Built m args memory start) (dst : ℕ) :
    Built m args (memory.copy start dst (bytesToNextMessage memory start)) dst := by
  obtain ⟨hhead, hsize, hlast⟩ := h.size_le_length
  have hhead : offsetBytesToNextMessage + 4 ≤ sizeofMessagePrefix := by decide
  exact h.relocate (fun i hi => Memory.copy_apply_of_lt (by omega))
    fun i _ hi => Memory.copy_apply_of_lt (by omega)

/-- A relay stamps two members of the prefix that no variable buffer is read from. -/
theorem Built.relay (h : Built m args memory start) (custodyIdentity occurrence : ℕ) :
    Built m args (relay memory start dst custodyIdentity occurrence) dst := by
  unfold Messaging.relay offsetManagedChildCustodyIdentity offsetManagedChildOccurrence
  refine (h.copy dst).relocate (fun i hi => ?_) fun i hi _ => ?_
  · unfold offsetBytesToNextMessage at hi
    rw [Memory.store_apply_of_not (.inl (by omega)), Memory.store_apply_of_not (.inl (by omega))]
  · unfold messagePrefixEnd at hi
    rw [Memory.store_apply_of_not (.inr (by omega)), Memory.store_apply_of_not (.inr (by omega))]

theorem copyNextFrame_eq {rangeEnd frame : ℕ}
    (h : copyNextFrame memory start rangeEnd frame = .ok memory') :
    memory' = memory.copy start frame (bytesToNextMessage memory start) := by
  simp only [copyNextFrame] at h
  split_ifs at h
  exact (Except.ok.inj h).symm

/-- The object and what follows it are copied one after the other. -/
theorem copyMessageFrame_eq {storage i : ℕ}
    (hapart : storage + bytesToNextMessage memory start ≤ start ∨
      start + bytesToNextMessage memory start ≤ storage)
    (h : copyMessageFrame m memory start storage = .ok memory')
    (hi : i < bytesToNextMessage memory start) : memory' (storage + i) = memory (start + i) := by
  simp only [copyMessageFrame] at h
  split_ifs at h with hvalid
  obtain rfl := Except.ok.inj h
  by_cases hsize : i < m.size
  · rw [Memory.copy, if_neg (by omega), Memory.copy_apply_of_lt hsize]
  · obtain ⟨j, rfl⟩ := Nat.exists_eq_add_of_le (Nat.le_of_not_lt hsize)
    rw [← Nat.add_assoc, ← Nat.add_assoc, Memory.copy_apply_of_lt (by omega), Memory.copy,
      if_neg (by omega)]

/-- Every byte of the frame is copied, up to the identity that a relay stamps. -/
theorem Built.copied (h : Built m args memory start) (hcopied : Copied m memory start memory' dst) :
    Built m args memory' dst := by
  induction hcopied with
  | refl => exact h
  | relay custodyIdentity occurrence _ _ ih => exact ih.relay custodyIdentity occurrence
  | fetch _ _ hcopy ih =>
    rw [copyNextFrame_eq hcopy]
    exact ih.copy _
  | own _ _ hapart hcopy ih =>
    obtain ⟨hhead, hsize, hlast⟩ := ih.size_le_length
    have hhead : offsetBytesToNextMessage + 4 ≤ sizeofMessagePrefix := by decide
    exact ih.relocate (fun i hi => copyMessageFrame_eq hapart hcopy (by omega))
      fun i _ hi => copyMessageFrame_eq hapart hcopy (by omega)

end

/-! ### Payloads -/

/-- The fields with their arguments. -/
def Args.entries : (fs : List Field) → Args fs → List (Σ f : Field, Value f.type)
  | [], _ => []
  | f :: fs, (value, args) => ⟨f, value⟩ :: Args.entries fs args

section

variable {memory : Memory} {start offset : ℕ} {e : ElemType}

variable {container : List (List UInt8)}

variable (hstart : start % messageFrameAlignment = 0)

include hstart

variable {fs : List Field} {args : Args fs}

end

/-- The length of the frame of a span, if it fits. -/
def frameLength (spanEnd : ℕ) : Option ℕ :=
  if alignUp spanEnd messageFrameAlignment < messageFrameSizeLimit then
    some (alignUp spanEnd messageFrameAlignment)
  else none

/-- The two passes come to the same length for these arguments, or to none. -/
def MessageType.Agrees (m : MessageType) (args : Args m.fields) : Prop :=
  frameLength (m.countedEnd args) = frameLength (m.storedEnd args)

section

variable {m : MessageType} {args : Args m.fields} {start : ℕ}

end

/-- `char` and `int`. -/
def charType : ElemType := ⟨1, 1, Nat.one_pos, by decide⟩

def intType : ElemType := ⟨4, 4, by decide, by decide⟩

/-- `std::string` -/
def stringType : ArgType := ⟨32, false, false, some charType, some charType⟩

/-- `std::vector<int>` -/
def vectorType : ArgType := ⟨24, false, false, some intType, some intType⟩

/-- A message with a string, a vector and a number. -/
def greeting : MessageType where
  size := 104
  id := 1
  fields := [⟨stringType, 64⟩, ⟨vectorType, 80⟩, ⟨⟨4, true, false, none, none⟩, 96⟩]
  size_ge := by decide
  inside := by decide
  disjoint := by decide

/-- "hi", two numbers, and one more. -/
def hi : Args greeting.fields :=
  (⟨List.replicate 32 0, [[104], [105]], by decide, by
    rintro _ ⟨⟩
    decide⟩, ⟨List.replicate 24 0, [[1, 0, 0, 0], [2, 0, 0, 0]], by decide, by
    rintro _ ⟨⟩
    decide⟩, ⟨[3, 0, 0, 0], [], by decide, nofun⟩, ())

end Sintra.Messaging
