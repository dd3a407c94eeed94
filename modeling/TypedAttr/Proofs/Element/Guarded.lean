import TypedAttr.Datatype.Descriptor
import TypedAttr.Element.Decode
import TypedAttr.Element.Encode
import TypedAttr.Proofs.Bytes.Access
import TypedAttr.Proofs.Text.Slot
/-!
# Elements with every access checked

The walks of `encode` and `decode` once more, taken step by step: ranges are
computed from running positions and from the sizes that are stored in the
nodes, words are cut to their width before they are written, and every
access is one of `Guarded`. Positions are numbers without a bound, so that
sizes too large for a machine are not among the faults. What these functions
compute is the subject of `TypedAttr.Proofs.Element.Bounds`.
-/

namespace TypedAttr

/-- The size that is stored in a node. -/
def Datatype.storedSize (type : Datatype) : Nat := type.descriptor.size

namespace Guarded

open Datatype (settle? halfPattern singlePattern)

/-! ## Writing leaves -/

/-- The lowest bits of a number of 64, as many as `width` bytes hold. -/
def lowest (raw width : Nat) : Nat :=
  if 8 ≤ width then raw else raw &&& (Nat.pow 2 (8 * width) - 1)

/-- A number into a slot: out of range it is refused, else its lowest bits
are written. -/
def writeInteger (order : ByteOrder) (signed : Bool) (n : Int) (slot : Bytes) : Guarded Overlay :=
  match WordSize.ofBytes? slot.length with
  | none => .ok (.untouched (Bytes.zeros slot.length))
  | some size =>
    if IntKind.fits ⟨size, signed⟩ n then do
      let raw := (n % Nat.pow 2 64).toNat
      return .untouched (← writeNumber order (lowest raw slot.length) slot.length slot)
    else .ok (.refused slot (.outOfSlot n slot.length signed))

/-- An integer value of a type into a slot. -/
def encodeInteger (type : Datatype) (value : Value) (slot : Bytes) : Guarded Overlay :=
  match value.toInt? with
  | some n => writeInteger type.order type.isSigned n slot
  | none => .ok (.refused slot (.wrongKind type value))

/-- A number as a float into a slot. -/
def encodeFloat (type : Datatype) (value : Value) (slot : Bytes) : Guarded Overlay :=
  match value.toDouble? with
  | none => .ok (.refused slot (.wrongKind type value))
  | some double =>
    match FloatFormat.ofBytes? slot.length with
    | some .half => .untouched <$> writeWord type.order (halfPattern value double) slot
    | some .single => .untouched <$> writeWord type.order (singlePattern value double) slot
    | some .double => .untouched <$> writeWord type.order double slot
    | some .quad => .ok (.untouched (Bytes.zeros slot.length))
    | none => .ok (.untouched (Bytes.zeros slot.length))

/-- The bytes of a text into a slot. -/
def padText (padding : Padding) (text slot : Bytes) : Guarded Bytes :=
  padding.finish <$> copyPadded text padding.filler slot

/-- Text, or bytes that stand for it, into a slot. -/
def encodeText (type : Datatype) (value : Value) (slot : Bytes) : Guarded Overlay :=
  match value with
  | .text text => .untouched <$> padText type.padding (Text.utf8 text) slot
  | .bytes raw => .untouched <$> padText type.padding raw slot
  | _ => .ok (.refused slot (.wrongKind type value))

/-- Bits into a slot. -/
def encodeBitfield (type : Datatype) (value : Value) (slot : Bytes) : Guarded Overlay :=
  match value with
  | .bytes raw => .untouched <$> copyPadded raw 0 slot
  | _ => encodeInteger type value slot

/-- A value of an enumeration into a slot. -/
def encodeEnumerated (type : Datatype) (value : Value) (slot : Bytes) : Guarded Overlay :=
  match value with
  | .text name =>
    match type.valueOfName? name with
    | some n => writeInteger type.order type.isSigned n slot
    | none => .ok (.refused slot (.noSuchName type name))
  | _ => encodeInteger type value slot

/-- An address, as a number without sign, or a token into a slot. -/
def encodeReference (type : Datatype) (value : Value) (slot : Bytes) : Guarded Overlay :=
  match value with
  | .address address =>
    if slot.length = 8 then writeInteger type.order false address.toNat slot
    else .ok (.refused slot (.wrongKind type value))
  | .token token =>
    if token.size = slot.length then .untouched <$> copy token.bytes slot
    else .ok (.refused slot (.sizeMismatch slot.length token.size))
  | _ => .ok (.refused slot (.wrongKind type value))

/-! ## Writing trees -/

mutual

/-- A value of a type into its slot. -/
def encodeAt (options : ElementOptions) (path : String) (type : Datatype) (value : Value)
    (slot : Bytes) : Guarded Overlay :=
  match type.settle? value slot with
  | some settled => .ok settled
  | none =>
    match type with
    | .integer .. => encodeInteger type value slot
    | .float .. => encodeFloat type value slot
    | .fixedText .. => encodeText type value slot
    | .bitfield .. => encodeBitfield type value slot
    | .enumeration .. => encodeEnumerated type value slot
    | .reference .. => encodeReference type value slot
    | .compound members _ =>
      match value with
      | .compound fields => encodeMembers options path fields members 0 slot
      | _ => .ok (.refused slot (.wrongKind type value))
    | .array base extents _ =>
      match value with
      | .array items =>
        if items.length = gridSize extents then
          eachSlot (encodeAt options path base) base.storedSize items 0 slot
        else .ok (.refused slot (.sizeMismatch (gridSize extents) items.length))
      | _ => .ok (.refused slot (.wrongKind type value))
    | .blob .. | .time .. | .noClass .. | .varText .. | .sequence .. =>
      .ok (.untouched (Bytes.zeros slot.length))

/-- The fields of the members that take part, the first of which starts at
`cursor`. -/
def encodeMembers (options : ElementOptions) (above : String) (fields : List (String × Value)) :
    List (String × Datatype) → (cursor : Nat) → Bytes → Guarded Overlay
  | [], _, bytes => .ok (.untouched bytes)
  | (name, type) :: rest, cursor, bytes =>
    let path := memberPath above name
    let stop := cursor + type.storedSize
    if type.leafBase.isCompound || options.members.includes path then
      match Value.lookup? name fields with
      | some value => do
        let overlay ← within bytes cursor stop (encodeAt options path type value)
        proceed overlay (encodeMembers options above fields rest stop)
      | none => encodeMembers options above fields rest stop bytes
    else encodeMembers options above fields rest stop bytes

end

/-- One element into the front of a buffer. -/
def encodeInto (type : Datatype) (options : ElementOptions) (value : Value) (buffer : Bytes) :
    Guarded Overlay :=
  if buffer.length < type.storedSize then
    .ok (.refused buffer (.sizeMismatch type.storedSize buffer.length))
  else within buffer 0 type.storedSize (encodeAt options "" type value)

/-- One element into fresh bytes. -/
def encode (type : Datatype) (options : ElementOptions) (value : Value) :
    Guarded (Except Error Bytes) :=
  Overlay.toExcept <$> encodeInto type options value (Bytes.zeros type.storedSize)

/-- Elements back to back. -/
def encodeElements (type : Datatype) (options : ElementOptions) (values : List Value) :
    Guarded (Except Error Bytes) :=
  Overlay.toExcept <$> eachSlot (encodeAt options "" type) type.storedSize values 0
    (Bytes.zeros (type.storedSize * values.length))

/-! ## Reading leaves -/

/-- An integer of the slot's size. A single byte is read as it stands. -/
def decodeInteger (order : ByteOrder) (signed : Bool) (slot : Bytes) : Guarded Value :=
  match WordSize.ofBytes? slot.length with
  | some .one => do return .int ⟨.one, signed⟩ (← byteAt slot 0).toBitVec
  | some size => .int ⟨size, signed⟩ <$> readWord order size.bytes slot
  | none => .ok (.failure (.unsupportedSize .integer slot.length))

/-- A float of the slot's size. -/
def decodeFloat (order : ByteOrder) (slot : Bytes) : Guarded Value :=
  match FloatFormat.ofBytes? slot.length with
  | some format => .float format <$> readWord order format.bytes slot
  | none => .ok (.failure (.unsupportedSize .float slot.length))

/-- Where the text in a slot ends: before the first zero byte, or, for space
padding, behind the last byte that is not blank. -/
def endOfText (padding : Padding) (slot : Bytes) : Nat :=
  match padding with
  | .terminated | .zeros => slot.findIdx (· == 0)
  | .spaces => slot.length - slot.reverse.findIdx fun b => !Padding.isBlank b

/-- The text in a slot, unless its bytes are no text. -/
def trimText (padding : Padding) (slot : Bytes) : Guarded (Option String) :=
  Text.ofUtf8? <$> slice slot 0 (endOfText padding slot)

/-- The text in a slot, or the whole slot. -/
def decodeText (options : ElementOptions) (padding : Padding) (slot : Bytes) : Guarded Value :=
  if options.convertText then do
    match ← trimText padding slot with
    | some text => return .text text
    | none => return .bytes slot
  else .ok (.bytes slot)

/-- A number of the slot's size, and the first name it has. -/
def decodeEnumerated (order : ByteOrder) (signed : Bool) (values : List (String × Int))
    (slot : Bytes) : Guarded Value := do
  match (← decodeInteger order signed slot).toInt? with
  | some value =>
    return .enumerated value ((values.find? fun named => named.2 == value).map (·.1))
  | none => return .failure (.unsupportedSize .enumeration slot.length)

/-- An address of eight bytes, else the token as it is. -/
def decodeReference (order : ByteOrder) (slot : Bytes) : Guarded Value :=
  if slot.length = 8 then .address <$> readWord order 8 slot else .ok (.token ⟨slot⟩)

/-! ## Reading trees -/

/-- Reads a slot at the front of a byte string, if the bytes reach that far. -/
def readSlot (size : Nat) (bytes : Bytes) (read : Bytes → Guarded Value) : Guarded Value :=
  if bytes.length < size then .ok (.failure (.truncated size bytes.length))
  else do read (← slice bytes 0 size)

mutual

/-- One element from the front of a byte string. -/
def decodeAt (options : ElementOptions) (path : String) (type : Datatype) (bytes : Bytes) :
    Guarded Value :=
  readSlot type.storedSize bytes fun slot =>
    match type with
    | .integer _ signed traits => decodeInteger traits.order signed slot
    | .float _ traits => decodeFloat traits.order slot
    | .fixedText _ traits => decodeText options traits.padding slot
    | .varText _ | .sequence _ _ => .ok (.failure .variableLength)
    | .bitfield _ _ => .ok (.bytes slot)
    | .blob _ _ => .ok (.failure (.unsupportedClass .blob))
    | .time _ _ => .ok (.failure (.unsupportedClass .time))
    | .noClass _ => .ok (.failure (.unsupportedClass .noClass))
    | .compound members _ => .compound <$> decodeMembers options path members 0 slot
    | .array base extents _ => .array <$> (List.range (gridSize extents)).mapM fun i => do
      decodeAt options path base
        (← slice slot (min (i * base.storedSize) slot.length) slot.length)
    | .enumeration base values traits => decodeEnumerated traits.order base.isSigned values slot
    | .reference _ traits => decodeReference traits.order slot

/-- The members that take part, the first of which starts at `cursor`. -/
def decodeMembers (options : ElementOptions) (above : String) :
    List (String × Datatype) → (cursor : Nat) → Bytes → Guarded (List (String × Value))
  | [], _, _ => .ok []
  | (name, type) :: rest, cursor, bytes => do
    let path := memberPath above name
    if type.leafBase.isCompound || options.members.includes path then
      let value ← decodeAt options path type
        (← slice bytes (min cursor bytes.length) bytes.length)
      let later ← decodeMembers options above rest (cursor + type.storedSize) bytes
      return (name, value) :: later
    else decodeMembers options above rest (cursor + type.storedSize) bytes

end

/-- One element from the front of a byte string. -/
def decode (type : Datatype) (options : ElementOptions) (bytes : Bytes) : Guarded Value :=
  decodeAt options "" type bytes

/-- Elements back to back. -/
def decodeElements (type : Datatype) (options : ElementOptions) (count : Nat) (bytes : Bytes) :
    Guarded (List Value) :=
  (List.range count).mapM fun i => do
    let start := i * type.storedSize
    if bytes.length < start then
      return .failure (.truncated (start + type.storedSize) bytes.length)
    else decode type options (← slice bytes start bytes.length)

end Guarded

end TypedAttr
