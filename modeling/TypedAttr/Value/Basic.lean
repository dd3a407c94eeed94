import TypedAttr.Number.Binary
import TypedAttr.Number.Quad
import TypedAttr.Datatype.Basic
import TypedAttr.Reference.Token
/-!
# Values

What one element holds, once its bytes are read. An element that cannot be
read is itself a value, `Value.failure`, so that one bad element never
spoils the others of an array or a compound.
-/

namespace TypedAttr

/-- Why an element could not be read. -/
inductive ConversionFailure where
  /-- Numbers of this class and size do not convert. -/
  | unsupportedSize (c : DatatypeClass) (size : Nat)
  /-- The class has no values. -/
  | unsupportedClass (c : DatatypeClass)
  /-- The bytes end before the element does. -/
  | truncated (needed available : Nat)
  /-- Data of variable length is not in the element's own bytes. -/
  | variableLength
  /-- The datatype lacks its base. -/
  | missingBase (c : DatatypeClass)
  /-- The element is not in the buffer it was selected from. -/
  | missing
  deriving DecidableEq, Inhabited

/-- What one element holds. -/
inductive Value where
  | int (kind : IntKind) (word : BitVec kind.bits)
  | float (format : FloatFormat) (pattern : BitVec format.bits)
  | text (content : String)
  /-- Bytes as they are: bit fields, and text that is left as it is. -/
  | bytes (raw : Bytes)
  /-- A value of an enumeration, with its name if it has one. -/
  | enumerated (value : Int) (name : Option String)
  /-- A reference of eight bytes. -/
  | address (number : Address)
  /-- A reference of any other size. -/
  | token (name : Token)
  | array (items : List Value)
  | compound (fields : List (String × Value))
  | sequence (items : List Value)
  /-- An element that could not be read. -/
  | failure (cause : ConversionFailure)
  deriving Inhabited

namespace Value

/-- Whether the element could not be read. -/
def isFailure : Value → Bool
  | .failure _ => true
  | _ => false

/-- Whether the value is a float of sixteen bytes, which is never written. -/
def isWideFloat : Value → Bool
  | .float .quad _ => true
  | _ => false

/-- The integer that a value is, if it is one. -/
def toInt? : Value → Option Int
  | .int kind word => some (kind.toInt word)
  | .enumerated value _ => some value
  | .address number => some number.toNat
  | _ => none

/-- The double that is nearest to a value, if it is a number. -/
def toDouble? : Value → Option (BitVec FloatFormat.double.bits)
  | .float .half pattern => some (FloatFormat.half.convert .double pattern)
  | .float .single pattern => some (FloatFormat.single.convert .double pattern)
  | .float .double pattern => some pattern
  | .float .quad pattern => some (Quad.narrow pattern)
  | value => value.toInt?.map FloatFormat.double.ofInt

/-- The text that a value is: its own, or the name of an enumerated value. -/
def toText? : Value → Option String
  | .text content => some content
  | .enumerated _ name => name
  | _ => none

/-- The first field of a name in a list of fields. -/
def lookup? (name : String) (fields : List (String × Value)) : Option Value :=
  (fields.find? fun field => field.1 == name).map (·.2)

/-- The first field of a name, if the value is a compound. -/
def field? (name : String) : Value → Option Value
  | .compound fields => lookup? name fields
  | _ => none

/-- The items of an array or a sequence. -/
def items? : Value → Option (List Value)
  | .array items | .sequence items => some items
  | _ => none

/-- The name of a value's kind. -/
def kindName : Value → String
  | .int kind _ => kind.name
  | .float format _ => format.name
  | .text _ => "string"
  | .bytes _ => "bytes"
  | .enumerated .. => "enum"
  | .address _ => "reference"
  | .token _ => "reference"
  | .array _ => "array"
  | .compound _ => "compound"
  | .sequence _ => "vlen"
  | .failure _ => "error"

end Value

end TypedAttr
