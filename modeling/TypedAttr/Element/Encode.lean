import TypedAttr.Datatype.Members
import TypedAttr.Datatype.Text
import TypedAttr.Element.Options
import TypedAttr.Element.Overlay
import TypedAttr.Value.Basic
/-!
# Elements to bytes

`encode` writes one element into fresh bytes and `encodeInto` into bytes
that are there. Floats of sixteen bytes and data of variable length are
refused. Failure values, and classes without values, are written as zeros.
-/

namespace TypedAttr

namespace Error

/-- A float of sixteen bytes cannot be written. -/
def wideFloatWrite : Error := .unsupported "writing 16-byte floating-point data"

/-- Data of variable length has no place in an element's own bytes. -/
def variableLengthWrite (type : Datatype) : Error :=
  .unsupported s!"writing variable-length data through fixed-width encode ({type.render})"

/-- A value is not of its type's class. -/
def wrongKind (type : Datatype) (value : Value) : Error :=
  .typeMismatch type.datatypeClass.name value.kindName

/-- A number is not in the range of its slot. -/
def outOfSlot (n : Int) (size : Nat) (signed : Bool) : Error :=
  .conversion
    (s!"{n} does not fit a {size}-byte " ++ (if signed then "signed" else "unsigned") ++ " integer")

/-- An enumeration has no value of a name. -/
def noSuchName (type : Datatype) (name : String) : Error :=
  .conversion s!"'{name}' is not a member of {type.render}"

end Error

namespace Datatype

/-! ## Leaves -/

/-- A number into a slot. Sizes that do not convert are filled with zeros. -/
def writeInteger (order : ByteOrder) (signed : Bool) (n : Int) (slot : Bytes) : Overlay :=
  match WordSize.ofBytes? slot.length with
  | none => .untouched (Bytes.zeros slot.length)
  | some size =>
    match IntKind.ofInt? ⟨size, signed⟩ n with
    | some word => .untouched (order.writeWord word)
    | none => .refused slot (.outOfSlot n slot.length signed)

/-- An integer value of a type into a slot. -/
def encodeInteger (type : Datatype) (value : Value) (slot : Bytes) : Overlay :=
  match value.toInt? with
  | some n => writeInteger type.order type.isSigned n slot
  | none => .refused slot (.wrongKind type value)

/-- The half of a number. A double is rounded to a single first. -/
def halfPattern (value : Value) (double : BitVec FloatFormat.double.bits) :
    BitVec FloatFormat.half.bits :=
  match value with
  | .float .half pattern => pattern
  | _ => FloatFormat.single.convert .half (FloatFormat.double.convert .single double)

/-- The single of a number. -/
def singlePattern (value : Value) (double : BitVec FloatFormat.double.bits) :
    BitVec FloatFormat.single.bits :=
  match value with
  | .float .single pattern => pattern
  | _ => FloatFormat.double.convert .single double

/-- A number as a float into a slot. A value of the slot's own format keeps
its pattern. Sizes that do not convert are filled with zeros. -/
def encodeFloat (type : Datatype) (value : Value) (slot : Bytes) : Overlay :=
  match value.toDouble? with
  | none => .refused slot (.wrongKind type value)
  | some double =>
    match FloatFormat.ofBytes? slot.length with
    | some .half => .untouched (type.order.writeWord (halfPattern value double))
    | some .single => .untouched (type.order.writeWord (singlePattern value double))
    | some .double => .untouched (type.order.writeWord double)
    | some .quad => .untouched (Bytes.zeros slot.length)
    | none => .untouched (Bytes.zeros slot.length)

/-- Text, or bytes that stand for it, into a slot. -/
def encodeText (type : Datatype) (value : Value) (slot : Bytes) : Overlay :=
  match value with
  | .text text => .untouched (type.padding.fill (Text.utf8 text) slot.length)
  | .bytes raw => .untouched (type.padding.fill raw slot.length)
  | _ => .refused slot (.wrongKind type value)

/-- Bits into a slot: bytes are cut or followed by zeros, numbers are
written as they are. -/
def encodeBitfield (type : Datatype) (value : Value) (slot : Bytes) : Overlay :=
  match value with
  | .bytes raw => .untouched (Padding.fit 0 raw slot.length)
  | _ => encodeInteger type value slot

/-- A value of an enumeration, by number or by name, into a slot. -/
def encodeEnumerated (type : Datatype) (value : Value) (slot : Bytes) : Overlay :=
  match value with
  | .text name =>
    match type.valueOfName? name with
    | some n => writeInteger type.order type.isSigned n slot
    | none => .refused slot (.noSuchName type name)
  | _ => encodeInteger type value slot

/-- An address into eight bytes, or a token into as many as it has. -/
def encodeReference (type : Datatype) (value : Value) (slot : Bytes) : Overlay :=
  match value with
  | .address address =>
    if slot.length = 8 then .untouched (type.order.writeWord address)
    else .refused slot (.wrongKind type value)
  | .token token =>
    if token.size = slot.length then .untouched token.bytes
    else .refused slot (.sizeMismatch slot.length token.size)
  | _ => .refused slot (.wrongKind type value)

/-! ## Trees -/

/-- What is settled before the class is looked at: what is never written,
and failures, which are written as zeros. -/
def settle? (type : Datatype) (value : Value) (slot : Bytes) : Option Overlay :=
  if type.isWideFloat || value.isWideFloat then some (.refused slot .wideFloatWrite)
  else if type.isSequence || type.isVarText then
    some (.refused slot (.variableLengthWrite type))
  else if value.isFailure then some (.untouched (Bytes.zeros slot.length))
  else none

mutual

/-- A value of a type into its slot, members being named by their path below
`path`. -/
def encodeAt (options : ElementOptions) (path : String) (type : Datatype) (value : Value)
    (slot : Bytes) : Overlay :=
  match type.settle? value slot with
  | some settled => settled
  | none =>
    match type with
    | .integer .. => encodeInteger type value slot
    | .float .. => encodeFloat type value slot
    | .fixedText .. => encodeText type value slot
    | .bitfield .. => encodeBitfield type value slot
    | .enumeration .. => encodeEnumerated type value slot
    | .reference .. => encodeReference type value slot
    | .compound members _ =>
      match value with
      | .compound fields => encodeMembers options path fields members slot
      | _ => .refused slot (.wrongKind type value)
    | .array base extents _ =>
      match value with
      | .array items =>
        if items.length = gridSize extents then
          Overlay.run (encodeAt options path base) base.size items slot
        else .refused slot (.sizeMismatch (gridSize extents) items.length)
      | _ => .refused slot (.wrongKind type value)
    | .blob .. | .time .. | .noClass .. | .varText .. | .sequence .. =>
      .untouched (Bytes.zeros slot.length)

/-- The fields of the members that take part, each into its own slot. A
member without a field keeps the bytes that are there. -/
def encodeMembers (options : ElementOptions) (above : String) (fields : List (String × Value)) :
    List (String × Datatype) → Bytes → Overlay
  | [], slot => .untouched slot
  | (name, type) :: rest, slot =>
    let path := memberPath above name
    let own := slot.take type.size
    let written :=
      if type.leafBase.isCompound || options.members.includes path then
        match Value.lookup? name fields with
        | some value => encodeAt options path type value own
        | none => .untouched own
      else .untouched own
    written.andThen (slot.drop type.size) (encodeMembers options above fields rest)

end

/-- One element into fresh bytes. -/
def encode (type : Datatype) (options : ElementOptions) (value : Value) : Except Error Bytes :=
  (type.encodeAt options "" value (Bytes.zeros type.size)).toExcept

/-- One element into the front of a buffer. -/
def encodeInto (type : Datatype) (options : ElementOptions) (value : Value) (buffer : Bytes) :
    Overlay :=
  if buffer.length < type.size then .refused buffer (.sizeMismatch type.size buffer.length)
  else
    (type.encodeAt options "" value (buffer.take type.size)).andThen
      (buffer.drop type.size) Overlay.untouched

/-- Elements back to back. -/
def encodeElements (type : Datatype) (options : ElementOptions) (values : List Value) :
    Except Error Bytes :=
  (Overlay.run (type.encodeAt options "") type.size values
    (Bytes.zeros (type.size * values.length))).toExcept

end Datatype

end TypedAttr
