import TypedAttr.Data.Basic
import TypedAttr.Datatype.Text
import TypedAttr.Element.Decode
import TypedAttr.Element.Encode
/-!
# Data from and to packed bytes

A whole attribute is read and written at once. `Data.ofPacked` turns the
packed bytes of all elements into data, words in one go and everything with
structure element by element. `Data.pack` is the way back, for all data
whose bytes do not depend on the backend.
-/

namespace TypedAttr

namespace ByteOrder

/-- The words in packed bytes. -/
def readWords (order : ByteOrder) (width : Nat) (packed : Bytes) : List (BitVec (8 * width)) :=
  (wholeChunks width packed).map (order.readWord width)

/-- The packed bytes of words. -/
def writeWords (order : ByteOrder) {width : Nat} (words : List (BitVec (8 * width))) : Bytes :=
  words.flatMap order.writeWord

end ByteOrder

namespace Error

/-- Data are not of the kind that a type takes. -/
def wrongData (type : Datatype) (data : Data) : Error :=
  .typeMismatch type.render data.kindName

/-- A number does not fit into unsigned words of a size. -/
def outOfWord (n : Int) (size : WordSize) : Error :=
  .conversion s!"{n} out of range for u{8 * size.bytes}"

end Error

namespace Data

/-! ## Reading -/

/-- The texts in packed slots, if the bytes of all of them are text. -/
def textsOfPacked? (padding : Padding) (size count : Nat) (packed : Bytes) :
    Option (List String) :=
  ((wholeChunks (max size 1) packed).take count).mapM padding.text?

/-- The data in the packed bytes of `count` elements. -/
def ofPacked (type : Datatype) (options : ElementOptions) (count : Nat) (packed : Bytes) : Data :=
  let elements := Data.values (type.decodeElements options count packed)
  match type with
  | .integer size signed traits =>
    match WordSize.ofBytes? size with
    | some size => .ints ⟨size, signed⟩ (traits.order.readWords size.bytes packed)
    | none => elements
  | .float size traits =>
    match FloatFormat.ofBytes? size with
    | some format => .floats format (traits.order.readWords format.bytes packed)
    | none => elements
  | .array .. =>
    if type.leafBase.isWideFloat then
      .floats .quad (type.leafBase.order.readWords FloatFormat.quad.bytes packed)
    else elements
  | .fixedText size traits =>
    if options.convertText then
      match textsOfPacked? traits.padding size count packed with
      | some items => .texts items
      | none => .raw packed
    else .raw packed
  | .reference .object traits => .ints ⟨.eight, false⟩ (traits.order.readWords 8 packed)
  | .reference flavor _ => .tokens (Token.split flavor.tokenSize packed)
  | _ => elements

/-- One sequence per run of packed base elements. A base without bytes has
no elements in any run. -/
def ofRuns (base : Datatype) (options : ElementOptions) (runs : List Bytes) : Data :=
  .values (runs.map fun run =>
    .sequence (base.decodeElements options (run.length / base.size) run))

/-! ## Writing -/

/-- Refuses a count that is not the expected one. -/
def checkCount (expected actual : Nat) : Except Error Unit :=
  if expected = actual then .ok () else .error (.sizeMismatch expected actual)

/-- Signed words as unsigned words of half the size. -/
def narrow (size : WordSize) (kind : IntKind) (words : List (BitVec kind.bits)) :
    Except Error (List (BitVec (8 * size.bytes))) :=
  words.mapM fun word =>
    match IntKind.ofInt? ⟨size, false⟩ (kind.toInt word) with
    | some narrowed => .ok narrowed
    | none => .error (.outOfWord (kind.toInt word) size)

/-- The bytes of integers. Words of the type's size are taken as they are;
signed words of twice the size become unsigned, if they are in range. -/
def packIntegers (type : Datatype) (data : Data) : Except Error Bytes :=
  match data, WordSize.ofBytes? type.size with
  | .ints kind words, some size =>
    if kind.size = size then .ok (type.order.writeWords words)
    else if !type.isSigned && kind.signed && kind.size.bytes = 2 * size.bytes then do
      return type.order.writeWords (← narrow size kind words)
    else .error (.wrongData type data)
  | _, _ => .error (.wrongData type data)

/-- The bytes of floats. Patterns of the type's format are taken as they
are; doubles are rounded to singles. -/
def packFloats (type : Datatype) (data : Data) : Except Error Bytes :=
  match data, FloatFormat.ofBytes? type.size with
  | .floats .half patterns, some .half => .ok (type.order.writeWords patterns)
  | .floats .single patterns, some .single => .ok (type.order.writeWords patterns)
  | .floats .double patterns, some .double => .ok (type.order.writeWords patterns)
  | .floats .double patterns, some .single =>
    .ok (type.order.writeWords (patterns.map (FloatFormat.double.convert .single)))
  | _, _ => .error (.wrongData type data)

/-- The values that names have in an enumeration. -/
def valuesOfNames (type : Datatype) (names : List String) : Except Error (List Value) :=
  names.mapM fun name =>
    match type.valueOfName? name with
    | some n => .ok (.enumerated n none)
    | none => .error (.noSuchName type name)

/-- The bytes of tokens, all of which must have the type's size. -/
def packTokens (type : Datatype) (tokens : List Token) : Except Error Bytes := do
  let slots ← tokens.mapM fun token =>
    (checkCount type.size token.size).map fun _ => token.bytes
  return slots.flatten

/-- What an attribute is given to store. -/
inductive Payload where
  | packed (bytes : Bytes)
  | varTexts (items : List String)
  deriving Inhabited

/-- The paths of the objects that reference data name by path. -/
def paths? (type : Datatype) : Data → Option (List String)
  | .texts items => if type.datatypeClass = .reference then some items else none
  | _ => none

/-- What `count` elements of a type are stored as. References that are named
by path are left to those who can make tokens. -/
def pack (type : Datatype) (options : ElementOptions) (count : Nat) (data : Data) :
    Except Error Payload :=
  match data with
  | .values items => do
    checkCount count items.length
    return .packed (← type.encodeElements options items)
  | .raw bytes => do
    checkCount (count * type.size) bytes.length
    return .packed bytes
  | _ =>
    match type with
    | .integer .. | .bitfield .. => do
      checkCount count data.length
      return .packed (← packIntegers type data)
    | .float .. => do
      checkCount count data.length
      return .packed (← packFloats type data)
    | .varText _ =>
      match data with
      | .texts items => do
        checkCount count items.length
        return .varTexts items
      | _ => .error (.wrongData type data)
    | .fixedText size traits =>
      match data with
      | .texts items => do
        checkCount count items.length
        return .packed (items.flatMap fun item => traits.padding.fill (Text.utf8 item) size)
      | _ => .error (.wrongData type data)
    | .enumeration .. => do
      checkCount count data.length
      match data with
      | .texts names =>
        return .packed (← type.encodeElements options (← valuesOfNames type names))
      | _ => return .packed (← packIntegers type data)
    | .reference flavor traits => do
      checkCount count data.length
      match data, flavor with
      | .tokens items, _ => return .packed (← packTokens type items)
      | .ints ⟨.eight, false⟩ words, .object => return .packed (traits.order.writeWords words)
      | _, _ => .error (.wrongData type data)
    | .array .. | .compound .. | .sequence .. | .blob .. | .time .. | .noClass .. =>
      .error (.wrongData type data)

end Data

end TypedAttr
