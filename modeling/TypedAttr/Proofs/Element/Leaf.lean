import TypedAttr.Proofs.Element.Slots
import TypedAttr.Proofs.Number.Range
import TypedAttr.Proofs.Text.Slot
/-!
# Leaves of elements

What each leaf coder does with a slot of the right size: the word, the
pattern or the bytes that it reads there are the ones it writes there, and
the other way round. Sizes that do not convert are read as failures and
written as zeros.
-/

namespace TypedAttr

namespace FloatFormat

/-- The sizes of floats that are written, as counts of bytes. -/
theorem mem_writtenSizes (format : FloatFormat) :
    format.bytes ∈ [2, 4, 8] ↔ format ≠ .quad := by
  cases format <;> decide

theorem not_mem_of_ofBytes?_eq_none {n : Nat} (h : ofBytes? n = none) : n ∉ [2, 4, 8] := by
  intro hmem
  simp only [List.mem_cons, List.not_mem_nil, or_false] at hmem
  rcases hmem with rfl | rfl | rfl <;> cases h

end FloatFormat

namespace Datatype

/-! ## Integers -/

/-- **A number in range is written as its word.** -/
theorem writeInteger_of_ofInt? {order : ByteOrder} {kind : IntKind} {n : Int}
    {word : BitVec kind.bits} {slot : Bytes} (hword : kind.ofInt? n = some word)
    (hlength : slot.length = kind.size.bytes) :
    writeInteger order kind.signed n slot = .untouched (order.writeWord word) := by
  simp only [writeInteger, hlength, WordSize.ofBytes?_bytes, hword]

/-- A word that is a number is written as itself. -/
theorem writeInteger_toInt {order : ByteOrder} (kind : IntKind) (word : BitVec kind.bits)
    {slot : Bytes} (hlength : slot.length = kind.size.bytes) :
    writeInteger order kind.signed (kind.toInt word) slot = .untouched (order.writeWord word) :=
  writeInteger_of_ofInt? (kind.ofInt?_toInt word) hlength

/-- The number that is read from a slot is written as that slot. -/
theorem writeInteger_readWord {order : ByteOrder} {signed : Bool} {size : WordSize} {slot : Bytes}
    (h : slot.length = size.bytes) :
    writeInteger order signed (IntKind.toInt ⟨size, signed⟩ (order.readWord size.bytes slot))
      (Bytes.zeros slot.length) = .untouched slot := by
  have hzeros : (Bytes.zeros slot.length).length = size.bytes := (Bytes.length_zeros _).trans h
  refine (writeInteger_toInt ⟨size, signed⟩ _ hzeros).trans ?_
  exact congrArg _ (ByteOrder.writeWord_readWord _ h)

theorem decodeInteger_of_length {order : ByteOrder} {signed : Bool} {size : WordSize}
    {slot : Bytes} (h : slot.length = size.bytes) :
    decodeInteger order signed slot = .int ⟨size, signed⟩ (order.readWord size.bytes slot) := by
  simp only [decodeInteger, h, WordSize.ofBytes?_bytes]

/-- A word reads back as itself. -/
theorem decodeInteger_writeWord (order : ByteOrder) {kind : IntKind} (word : BitVec kind.bits) :
    decodeInteger order kind.signed (order.writeWord word) = .int kind word := by
  rw [decodeInteger_of_length (order.length_writeWord word), ByteOrder.readWord_writeWord]

/-- A slot of a size that does not convert is a failure. -/
theorem decodeInteger_of_none {order : ByteOrder} {signed : Bool} {slot : Bytes}
    (h : WordSize.ofBytes? slot.length = none) :
    decodeInteger order signed slot = .failure (.unsupportedSize .integer slot.length) := by
  simp only [decodeInteger, h]

/-! ## Floats -/

theorem decodeFloat_of_length {order : ByteOrder} {format : FloatFormat} {slot : Bytes}
    (h : slot.length = format.bytes) :
    decodeFloat order slot = .float format (order.readWord format.bytes slot) := by
  simp only [decodeFloat, h, FloatFormat.ofBytes?_bytes]

theorem decodeFloat_of_none {order : ByteOrder} {slot : Bytes}
    (h : FloatFormat.ofBytes? slot.length = none) :
    decodeFloat order slot = .failure (.unsupportedSize .float slot.length) := by
  simp only [decodeFloat, h]

/-- A pattern reads back as itself. -/
theorem decodeFloat_writeWord (order : ByteOrder) {format : FloatFormat}
    (pattern : BitVec format.bits) :
    decodeFloat order (order.writeWord pattern) = .float format pattern := by
  rw [decodeFloat_of_length (order.length_writeWord pattern), ByteOrder.readWord_writeWord]

/-- **A pattern of the slot's own format is written bit by bit**, be it a
number or none. -/
theorem encodeFloat_pattern {type : Datatype} {format : FloatFormat} (hquad : format ≠ .quad)
    (pattern : BitVec format.bits) {slot : Bytes} (hlength : slot.length = format.bytes) :
    encodeFloat type (.float format pattern) slot =
      .untouched (type.order.writeWord pattern) := by
  cases format with
  | half => simp [encodeFloat, Value.toDouble?, hlength, halfPattern]
  | single => simp [encodeFloat, Value.toDouble?, hlength, singlePattern]
  | double => simp [encodeFloat, Value.toDouble?, hlength]
  | quad => exact absurd rfl hquad

/-! ## Named values -/

/-- The number of a word and its name are what the word's slot holds. -/
theorem decodeEnumerated_of_length {order : ByteOrder} {signed : Bool}
    {values : List (String × Int)} {size : WordSize} {slot : Bytes}
    (h : slot.length = size.bytes) :
    decodeEnumerated order signed values slot =
      let n := IntKind.toInt ⟨size, signed⟩ (order.readWord size.bytes slot)
      .enumerated n ((values.find? fun named => named.2 == n).map (·.1)) := by
  simp only [decodeEnumerated, decodeInteger_of_length h, Value.toInt?]

theorem decodeEnumerated_of_none {order : ByteOrder} {signed : Bool}
    {values : List (String × Int)} {slot : Bytes} (h : WordSize.ofBytes? slot.length = none) :
    decodeEnumerated order signed values slot =
      .failure (.unsupportedSize .enumeration slot.length) := by
  simp only [decodeEnumerated, decodeInteger_of_none h, Value.toInt?]

/-! ## References -/

/-- An address is written as the word that it is. -/
theorem encodeReference_address {type : Datatype} (address : Address) {slot : Bytes}
    (hlength : slot.length = 8) :
    encodeReference type (.address address) slot =
      .untouched (type.order.writeWord address) := by
  simp only [encodeReference, hlength, if_true]

/-- A token of the slot's size is written as its bytes. -/
theorem encodeReference_token {type : Datatype} {token : Token} {slot : Bytes}
    (hlength : token.size = slot.length) :
    encodeReference type (.token token) slot = .untouched token.bytes := by
  simp only [encodeReference, hlength, if_true]

end Datatype

end TypedAttr
