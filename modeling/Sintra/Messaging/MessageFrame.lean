import Sintra.Lib.Memory

/-!
# Message frames

A message is constructed in place: the fixed fields of its body stand behind the `Message_prefix`, and
the payload of each variable-size argument is put behind the message, at a position that a pair of
thread-local pointers hands from one `variable_buffer` to the next. Before that, `vb_size` computes how
much room the payloads will need, by a pass of its own over the arguments.

An argument type is given by the traits that the two passes look at. What `vb_size` counts is decided
by `is_convertible` and `has_value_type` and measured by `value_type`; what the constructor stores as a
variable buffer is decided by `transformer` and measured by `iterator::value_type`.

`size_t` has 64 bits, and `alignof(std::max_align_t)` is at most 16. Memory is byte-addressed, and the
elements of a container are blocks of bytes, since they are trivially copyable. Of the prefix, the
constructor writes here what the frame's readers check: the magic, the length and the type id.

Sources without a file name are in `message.h`.
-/

namespace Sintra.Messaging

/-! ### Sizes -/

def messageRingSize : ℕ := 0x200000

def messageFrameAlignment : ℕ := 16

def messageFrameSizeLimit : ℕ := messageRingSize / 8

/-- `std::numeric_limits<size_t>::max()` -/
def sizeMax : ℕ := 2 ^ 64 - 1

/-- `std::numeric_limits<uint32_t>::max()` -/
def uint32Max : ℕ := 2 ^ 32 - 1

/-- The exceptions, with their texts. -/
inductive Error
  | overflowError (what : String)
  | lengthError (what : String)
  | runtimeError (what : String)

/-- Source: `align_up_size` -/
def alignUpSize (value alignment : ℕ) : Except Error ℕ :=
  if alignment ≤ 1 then .ok value
  else if value % alignment = 0 then .ok value
  else if alignment - value % alignment > sizeMax - value then
    .error (.overflowError "variable_buffer alignment overflow")
  else .ok (value + (alignment - value % alignment))

/-- Source: `finish_message_frame_size` -/
def finishMessageFrameSize (spanEnd : ℕ) : Except Error ℕ := do
  let aligned ← alignUpSize spanEnd messageFrameAlignment
  if aligned > uint32Max then
    .error (.overflowError "sintra message frame exceeds 32-bit length field")
  else if aligned ≥ messageFrameSizeLimit then
    .error (.lengthError "sintra message frame exceeds maximum frame size")
  else .ok aligned

/-! ### Argument types -/

/-- An element type, as far as the static assertions let it pass. -/
structure ElemType where
  size : ℕ
  align : ℕ
  size_pos : 0 < size
  align_dvd : align ∣ messageFrameAlignment

instance : DecidableEq ElemType := fun a b =>
  decidable_of_iff (a.size = b.size ∧ a.align = b.align) (by cases a; cases b; simp)

/-- An argument type. -/
structure ArgType where
  /-- `sizeof` -/
  size : ℕ
  /-- Trivial with standard layout, or a `Sintra_message_element`. -/
  plain : Bool
  /-- Derived from `variable_buffer`. -/
  buffer : Bool
  /-- `value_type` -/
  valueType : Option ElemType
  /-- `iterator::value_type`, which is all that the constructor of `variable_buffer` asks for. -/
  iteratorValueType : Option ElemType

/-- The element type by which `vb_size` counts an argument.
Source: `accumulate_vb_size` -/
def ArgType.counted (t : ArgType) : Option ElemType :=
  if t.iteratorValueType.isSome || t.buffer then t.valueType else none

/-- The element type of the `typed_variable_buffer` that an argument becomes; a plain argument, and one
that is a variable buffer already, is stored as it is. Source: `transformer` -/
def ArgType.transformed (t : ArgType) : Option ElemType :=
  if t.plain then none else if t.buffer then none else t.iteratorValueType

/-- An argument: its bytes as an object and, for a container, its elements. -/
structure Value (t : ArgType) where
  bytes : List UInt8
  elements : List (List UInt8)
  bytes_length : bytes.length = t.size
  elements_length : ∀ e ∈ t.iteratorValueType, ∀ x ∈ elements, x.length = e.size

/-! ### Message types -/

/-- A field of the body, at its offset in the message. -/
structure Field where
  type : ArgType
  offset : ℕ

/-- `sizeof(variable_buffer)` -/
def sizeofVariableBuffer : ℕ := 16

/-- The size of a field. -/
def Field.extent (f : Field) : ℕ :=
  if f.type.transformed.isSome then sizeofVariableBuffer else f.type.size

/-- Offsets of members of `Message_prefix`. -/
def offsetBytesToNextMessage : ℕ := 8

def offsetMessageTypeId : ℕ := 16

def offsetManagedChildCustodyIdentity : ℕ := 48

def offsetManagedChildOccurrence : ℕ := 56

/-- Where the last member of `Message_prefix` ends; the body may begin in its padding. -/
def messagePrefixEnd : ℕ := 60

/-- `sizeof(Message_prefix)` -/
def sizeofMessagePrefix : ℕ := 64

def messageMagic : ℕ := 0xc18a1aca1ebac17a

/-- An instance of `Message` with the layout the compiler has given it. -/
structure MessageType where
  /-- `sizeof` -/
  size : ℕ
  id : ℕ
  fields : List Field
  size_ge : sizeofMessagePrefix ≤ size
  inside : ∀ f ∈ fields, messagePrefixEnd ≤ f.offset ∧ f.offset + f.extent ≤ size
  disjoint : fields.Pairwise fun f g =>
    f.offset + f.extent ≤ g.offset ∨ g.offset + g.extent ≤ f.offset

/-- One argument for each field. -/
def Args : List Field → Type
  | [] => Unit
  | f :: fs => Value f.type × Args fs

/-! ### The size of the payloads -/

/-- Where the message under construction is: `tl_message_start_address` and
`tl_pbytes_to_next_message`. -/
structure Context where
  messageStartAddress : ℕ
  pbytesToNextMessage : ℕ

/-- What a constructor works on. -/
structure Thread where
  memory : Memory
  context : Option Context

/-- Source: `message_impl.h`, `variable_buffer::variable_buffer` -/
def variableBuffer (e : ElemType) (container : List (List UInt8)) (this : ℕ) (s : Thread) :
    Except Error Thread :=
  if container.length > sizeMax / e.size then
    .error (.runtimeError "sintra::variable_buffer overflow: container too large")
  else
    let numBytes := container.length * e.size
    if numBytes > uint32Max then
      .error (.runtimeError "sintra::variable_buffer overflow: payload exceeds 32-bit limit")
    else
      match s.context with
      | none =>
        .error (.runtimeError
          "sintra::variable_buffer constructed outside a message construction context")
      | some context => do
        let currentOffset := s.memory.load 4 context.pbytesToNextMessage
        let alignedOffset ← alignUpSize currentOffset e.align
        if alignedOffset > uint32Max then
          .error (.runtimeError
            "sintra::variable_buffer overflow: aligned offset exceeds representable range")
        else if numBytes > sizeMax - alignedOffset then
          .error (.runtimeError
            "sintra::variable_buffer overflow: message span exceeds representable range")
        else
          let spanEnd := alignedOffset + numBytes
          if spanEnd > uint32Max then
            .error (.runtimeError
              "sintra::variable_buffer overflow: message span exceeds representable range")
          else
            let _ ← finishMessageFrameSize spanEnd
            let data := context.messageStartAddress + alignedOffset
            if data % e.align ≠ 0 then
              .error (.runtimeError
                "sintra::variable_buffer storage does not satisfy payload alignment")
            else
              let selfOffset := this - context.messageStartAddress
              let memory := s.memory.store 8 this numBytes
              let memory := memory.writeAll e.size data container
              let memory := memory.store 8 (this + 8) (alignedOffset - selfOffset)
              .ok { s with memory := memory.store 4 context.pbytesToNextMessage spanEnd }

/-- A field of the body is constructed from its argument. -/
def Field.construct (start : ℕ) (f : Field) (value : Value f.type) (s : Thread) :
    Except Error Thread :=
  match f.type.transformed with
  | none => .ok { s with memory := s.memory.write (start + f.offset) value.bytes }
  | some e => variableBuffer e value.elements (start + f.offset) s

/-- The fields are constructed in their order. -/
def constructBody (start : ℕ) : (fs : List Field) → Args fs → Thread → Except Error Thread
  | [], _, s => .ok s
  | f :: fs, (value, args), s => do
    let s ← f.construct start value s
    constructBody start fs args s

/-- Source: `args_require_varbuffer` -/
def argsRequireVarbuffer (fs : List Field) : Bool := fs.any fun f => f.type.transformed.isSome

/-- The constructor of a message at address `start`. A stored length keeps its lower 32 bits.
Source: `Message::Message` -/
def construct (m : MessageType) (start : ℕ) (args : Args m.fields) (s : Thread) :
    Except Error Thread := do
  let lengthAddress := start + offsetBytesToNextMessage
  let s ←
    if argsRequireVarbuffer m.fields then do
      let memory := (s.memory.store 8 start messageMagic).store 4 lengthAddress m.size
      let s' ← constructBody start m.fields args ⟨memory, some ⟨start, lengthAddress⟩⟩
      let length ← finishMessageFrameSize (s'.memory.load 4 lengthAddress)
      .ok { s with memory := s'.memory.store 4 lengthAddress length }
    else do
      let length ← finishMessageFrameSize m.size
      let memory := (s.memory.store 8 start messageMagic).store 4 lengthAddress length
      constructBody start m.fields args { s with memory := memory }
  .ok { s with memory := s.memory.store 8 (start + offsetMessageTypeId) m.id }

/-! ### Reading a frame -/

/-- The member `bytes_to_next_message` of the frame at `start`. -/
def bytesToNextMessage (memory : Memory) (start : ℕ) : ℕ :=
  memory.load 4 (start + offsetBytesToNextMessage)

/-- Source: `typed_variable_buffer::size_bytes` -/
def sizeBytes (memory : Memory) (this : ℕ) : ℕ := memory.load 8 this

/-- Source: `typed_variable_buffer::data_offset_bytes` -/
def dataOffsetBytes (memory : Memory) (this : ℕ) : ℕ := memory.load 8 (this + 8)

/-- Source: `Message_ring_W::relay` -/
def relay (memory : Memory) (msg dst custodyIdentity occurrence : ℕ) : Memory :=
  let memory := memory.copy msg dst (bytesToNextMessage memory msg)
  let memory := memory.store 8 (dst + offsetManagedChildCustodyIdentity) custodyIdentity
  memory.store 4 (dst + offsetManagedChildOccurrence) occurrence

/-- Source: `Message_ring_R::copy_next_frame` -/
def copyNextFrame (memory : Memory) (rangeBegin rangeEnd frame : ℕ) : Except String Memory :=
  let availableBytes := rangeEnd - rangeBegin
  let bytesToNext := bytesToNextMessage memory rangeBegin
  if rangeEnd < rangeBegin then
    .error "Sintra message ring contains an invalid readable range."
  else if availableBytes < sizeofMessagePrefix then
    .error "Sintra message ring contains a truncated message prefix."
  else if memory.load 8 rangeBegin ≠ messageMagic then
    .error "Sintra message ring contains an invalid message magic."
  else if bytesToNext < sizeofMessagePrefix then
    .error "Sintra message ring contains an invalid message length."
  else if bytesToNext % messageFrameAlignment ≠ 0 then
    .error "Sintra message ring contains a misaligned message frame length."
  else if bytesToNext ≥ messageFrameSizeLimit then
    .error "Sintra message ring contains a message larger than the maximum frame size."
  else if bytesToNext > availableBytes then
    .error "Sintra message ring contains a message that exceeds the readable range."
  else .ok (memory.copy rangeBegin frame bytesToNext)

/-- Source: `copy_message_frame` -/
def copyMessageFrame (m : MessageType) (memory : Memory) (message storage : ℕ) :
    Except String Memory :=
  let frameSize := bytesToNextMessage memory message
  if frameSize < m.size ∨ frameSize ≥ messageFrameSizeLimit ∨
      frameSize % messageFrameAlignment ≠ 0 then
    .error "Invalid owned message frame size."
  else
    let copy := memory.copy message storage m.size
    .ok (copy.copy (message + m.size) (storage + m.size) (frameSize - m.size))

end Sintra.Messaging
