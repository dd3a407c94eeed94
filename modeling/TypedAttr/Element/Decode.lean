import TypedAttr.Datatype.Members
import TypedAttr.Element.Options
import TypedAttr.Value.Basic
/-!
# Elements from bytes

`decode` reads one element from the front of a byte string. It never fails:
what cannot be read becomes a failure value in its place.
-/

namespace TypedAttr

namespace Datatype

/-! ## Leaves -/

/-- An integer of the slot's size. -/
def decodeInteger (order : ByteOrder) (signed : Bool) (slot : Bytes) : Value :=
  match WordSize.ofBytes? slot.length with
  | some size => .int ⟨size, signed⟩ (order.readWord size.bytes slot)
  | none => .failure (.unsupportedSize .integer slot.length)

/-- A float of the slot's size. -/
def decodeFloat (order : ByteOrder) (slot : Bytes) : Value :=
  match FloatFormat.ofBytes? slot.length with
  | some format => .float format (order.readWord format.bytes slot)
  | none => .failure (.unsupportedSize .float slot.length)

/-- The text in a slot, or the whole slot if text is not asked for or its
bytes are none. -/
def decodeText (options : ElementOptions) (padding : Padding) (slot : Bytes) : Value :=
  if options.convertText then
    match padding.text? slot with
    | some text => .text text
    | none => .bytes slot
  else .bytes slot

/-- A number of the slot's size, and the first name it has. -/
def decodeEnumerated (order : ByteOrder) (signed : Bool) (values : List (String × Int))
    (slot : Bytes) : Value :=
  match (decodeInteger order signed slot).toInt? with
  | some value => .enumerated value ((values.find? fun named => named.2 == value).map (·.1))
  | none => .failure (.unsupportedSize .enumeration slot.length)

/-- An address if the flavor is one, else the token as it is. -/
def decodeReference (order : ByteOrder) (flavor : ReferenceFlavor) (slot : Bytes) : Value :=
  match flavor with
  | .object => .address (order.readWord 8 slot)
  | .region => .token ⟨slot⟩
  | .standard => .token ⟨slot⟩

/-! ## Trees -/

/-- Reads a slot at the front of a byte string, if the bytes reach that far. -/
def readSlot (size : Nat) (bytes : Bytes) (read : Bytes → Value) : Value :=
  if bytes.length < size then .failure (.truncated size bytes.length)
  else read (bytes.take size)

mutual

/-- One element from the front of a byte string, members being named by
their path below `path`. -/
def decodeAt (options : ElementOptions) (path : String) : Datatype → Bytes → Value
  | .integer size signed traits, bytes =>
    readSlot size bytes (decodeInteger traits.order signed)
  | .float size traits, bytes => readSlot size bytes (decodeFloat traits.order)
  | .fixedText size traits, bytes => readSlot size bytes (decodeText options traits.padding)
  | .varText _, bytes => readSlot varTextSize bytes fun _ => .failure .variableLength
  | .bitfield size _, bytes => readSlot size bytes .bytes
  | .blob size _, bytes => readSlot size bytes fun _ => .failure (.unsupportedClass .blob)
  | .time size _, bytes => readSlot size bytes fun _ => .failure (.unsupportedClass .time)
  | .noClass _, bytes => readSlot 0 bytes fun _ => .failure (.unsupportedClass .noClass)
  | .compound members _, bytes =>
    readSlot (sizeOfMembers members) bytes fun slot =>
      .compound (decodeMembers options path members slot)
  | .array base extents _, bytes =>
    readSlot (gridSize extents * base.size) bytes fun slot =>
      .array ((List.range (gridSize extents)).map fun i =>
        decodeAt options path base (slot.drop (i * base.size)))
  | .sequence _ _, bytes => readSlot sequenceSize bytes fun _ => .failure .variableLength
  | .enumeration base values traits, bytes =>
    readSlot base.size bytes (decodeEnumerated traits.order base.isSigned values)
  | .reference flavor traits, bytes =>
    readSlot flavor.tokenSize bytes (decodeReference traits.order flavor)

/-- The members that take part, each from where the one before it ends. -/
def decodeMembers (options : ElementOptions) (above : String) :
    List (String × Datatype) → Bytes → List (String × Value)
  | [], _ => []
  | (name, type) :: rest, bytes =>
    let path := memberPath above name
    let later := decodeMembers options above rest (bytes.drop type.size)
    if type.leafBase.isCompound || options.members.includes path then
      (name, decodeAt options path type bytes) :: later
    else later

end

/-- One element from the front of a byte string. -/
def decode (type : Datatype) (options : ElementOptions) (bytes : Bytes) : Value :=
  type.decodeAt options "" bytes

/-- Elements back to back. One that starts past the end of the bytes is
truncated, counting from their start. -/
def decodeElements (type : Datatype) (options : ElementOptions) (count : Nat) (bytes : Bytes) :
    List Value :=
  (List.range count).map fun i =>
    let start := i * type.size
    if bytes.length < start then .failure (.truncated (start + type.size) bytes.length)
    else type.decode options (bytes.drop start)

end Datatype

end TypedAttr
