import TypedAttr.Bytes.Word
import TypedAttr.Dataspace
import TypedAttr.Text.Padding
/-!
# Datatypes

The layout of one element is described by a tree: primitive leaves, and
compounds, arrays, sequences and enumerations above them. Members of a
compound are packed, so a compound's size is the sum of its members' and an
array's is its count of elements times the size of one.
-/

namespace TypedAttr

/-- What a datatype is, without its layout. -/
inductive DatatypeClass where
  | integer
  | float
  | time
  | text
  | bitfield
  | blob
  | compound
  | reference
  | enumeration
  | sequence
  | array
  | noClass
  deriving DecidableEq, Inhabited

namespace DatatypeClass

/-- The name under which a class is reported. -/
def name : DatatypeClass → String
  | .integer => "integer"
  | .float => "float"
  | .time => "time"
  | .text => "string"
  | .bitfield => "bitfield"
  | .blob => "opaque"
  | .compound => "compound"
  | .reference => "reference"
  | .enumeration => "enum"
  | .sequence => "vlen"
  | .array => "array"
  | .noClass => "no-class"

/-- The numeric code of a class. -/
def code : DatatypeClass → Nat
  | .integer => 0
  | .float => 1
  | .time => 2
  | .text => 3
  | .bitfield => 4
  | .blob => 5
  | .compound => 6
  | .reference => 7
  | .enumeration => 8
  | .sequence => 9
  | .array => 10
  | .noClass => 255

/-- The class of a numeric code. A code that no class has means no class. -/
def ofCode : Int → DatatypeClass
  | 0 => .integer
  | 1 => .float
  | 2 => .time
  | 3 => .text
  | 4 => .bitfield
  | 5 => .blob
  | 6 => .compound
  | 7 => .reference
  | 8 => .enumeration
  | 9 => .sequence
  | 10 => .array
  | _ => .noClass

/-- Whether datatypes of the class have a base or members. -/
def isComposite : DatatypeClass → Bool
  | .compound | .array | .sequence | .enumeration => true
  | _ => false

/-- All classes, in the order of their codes. -/
def all : List DatatypeClass :=
  [.integer, .float, .time, .text, .bitfield, .blob, .compound, .reference, .enumeration,
    .sequence, .array, .noClass]

/-- The class that is reported under a name. -/
def ofName? (name : String) : Option DatatypeClass := all.find? (·.name == name)

/-- The code of a class finds it again. -/
theorem ofCode_code (c : DatatypeClass) : ofCode c.code = c := by
  cases c <;> rfl

end DatatypeClass

/-- The families of reference tokens. -/
inductive ReferenceFlavor where
  /-- An object's address. -/
  | object
  /-- A dataset and a region in it. -/
  | region
  /-- A token for an object, a region or an attribute. -/
  | standard
  deriving DecidableEq, Inhabited

/-- The count of bytes in a token of this flavor. -/
def ReferenceFlavor.tokenSize : ReferenceFlavor → Nat
  | .object => 8
  | .region => 12
  | .standard => 64

/-- What any node of a datatype carries beside its shape. -/
structure Traits where
  order : ByteOrder := .little
  padding : Padding := .zeros
  deriving DecidableEq, Inhabited

/-- A node without numbers of its own. -/
def Traits.orderless : Traits := { order := .unspecified }

/-- The layout of one element. -/
inductive Datatype where
  /-- An integer of any size; sizes of 1, 2, 4 and 8 bytes convert. -/
  | integer (size : Nat) (signed : Bool) (traits : Traits)
  /-- A float of any size; sizes of 2, 4, 8 and 16 bytes convert. -/
  | float (size : Nat) (traits : Traits)
  /-- Text in a slot of fixed width. -/
  | fixedText (size : Nat) (traits : Traits)
  /-- Text of any length, kept elsewhere. -/
  | varText (traits : Traits)
  | bitfield (size : Nat) (traits : Traits)
  /-- Bytes without meaning. -/
  | blob (size : Nat) (traits : Traits)
  | time (size : Nat) (traits : Traits)
  /-- A datatype that nothing is known of. -/
  | noClass (traits : Traits)
  | compound (members : List (String × Datatype)) (traits : Traits)
  /-- Elements of a base, the last extent varying fastest. -/
  | array (base : Datatype) (extents : List Nat) (traits : Traits)
  /-- A run of elements of any length, kept elsewhere. -/
  | sequence (base : Datatype) (traits : Traits)
  /-- Named values of a base. -/
  | enumeration (base : Datatype) (values : List (String × Int)) (traits : Traits)
  | reference (flavor : ReferenceFlavor) (traits : Traits)
  deriving Inhabited

namespace Datatype

/-- The traits of the node itself. -/
def traits : Datatype → Traits
  | .integer _ _ t | .float _ t | .fixedText _ t | .varText t | .bitfield _ t | .blob _ t
  | .time _ t | .noClass t | .compound _ t | .array _ _ t | .sequence _ t
  | .enumeration _ _ t | .reference _ t => t

/-- The same node with other traits. What is below keeps its own. -/
def withTraits (t : Traits) : Datatype → Datatype
  | .integer size signed _ => .integer size signed t
  | .float size _ => .float size t
  | .fixedText size _ => .fixedText size t
  | .varText _ => .varText t
  | .bitfield size _ => .bitfield size t
  | .blob size _ => .blob size t
  | .time size _ => .time size t
  | .noClass _ => .noClass t
  | .compound members _ => .compound members t
  | .array base extents _ => .array base extents t
  | .sequence base _ => .sequence base t
  | .enumeration base values _ => .enumeration base values t
  | .reference flavor _ => .reference flavor t

/-- The byte order of the node itself. -/
def order (type : Datatype) : ByteOrder := type.traits.order

/-- The text padding of the node itself. -/
def padding (type : Datatype) : Padding := type.traits.padding

/-- The same node in another byte order. -/
def withOrder (order : ByteOrder) (type : Datatype) : Datatype :=
  type.withTraits { type.traits with order := order }

/-- The same node with another text padding. -/
def withPadding (padding : Padding) (type : Datatype) : Datatype :=
  type.withTraits { type.traits with padding := padding }

/-! ## Nodes with their usual traits -/

/-- An integer, little end first. -/
def ofInteger (size : Nat) (signed : Bool) : Datatype := .integer size signed {}

/-- A float, little end first. -/
def ofFloat (size : Nat) : Datatype := .float size {}

/-- Text in a slot of fixed width, filled up with zeros. -/
def ofFixedText (size : Nat) : Datatype := .fixedText size .orderless

/-- Text of any length. -/
def ofVarText : Datatype := .varText { order := .unspecified, padding := .terminated }

/-- A bit field, little end first. -/
def ofBitfield (size : Nat) : Datatype := .bitfield size {}

/-- Bytes without meaning. -/
def ofBlob (size : Nat) : Datatype := .blob size .orderless

/-- A time, little end first. -/
def ofTime (size : Nat) : Datatype := .time size {}

/-- A datatype that nothing is known of. -/
def ofNoClass : Datatype := .noClass {}

/-- A compound of named members. -/
def ofMembers (members : List (String × Datatype)) : Datatype := .compound members .orderless

/-- An array, in the byte order of its base. -/
def arrayOf (base : Datatype) (extents : List Nat) : Datatype :=
  .array base extents { order := base.order }

/-- A sequence of any length, little end first. -/
def sequenceOf (base : Datatype) : Datatype := .sequence base {}

/-- An enumeration, in the byte order of its base. -/
def enumerationOf (base : Datatype) (values : List (String × Int)) : Datatype :=
  .enumeration base values { order := base.order }

/-- A reference of a flavor. -/
def referenceOf (flavor : ReferenceFlavor) : Datatype := .reference flavor .orderless

/-! ## Shape -/

/-- The class of the node. -/
def datatypeClass : Datatype → DatatypeClass
  | .integer .. => .integer
  | .float .. => .float
  | .fixedText .. => .text
  | .varText .. => .text
  | .bitfield .. => .bitfield
  | .blob .. => .blob
  | .time .. => .time
  | .noClass .. => .noClass
  | .compound .. => .compound
  | .array .. => .array
  | .sequence .. => .sequence
  | .enumeration .. => .enumeration
  | .reference .. => .reference

/-- The slot of a text of any length: where it is kept. -/
def varTextSize : Nat := 8

/-- The slot of a sequence: its length and where it is kept. -/
def sequenceSize : Nat := 16

mutual

/-- The count of bytes in one element. -/
def size : Datatype → Nat
  | .integer size _ _ => size
  | .float size _ => size
  | .fixedText size _ => size
  | .varText _ => varTextSize
  | .bitfield size _ => size
  | .blob size _ => size
  | .time size _ => size
  | .noClass _ => 0
  | .compound members _ => sizeOfMembers members
  | .array base extents _ => gridSize extents * base.size
  | .sequence _ _ => sequenceSize
  | .enumeration base _ _ => base.size
  | .reference flavor _ => flavor.tokenSize

/-- The bytes that packed members take together. -/
def sizeOfMembers : List (String × Datatype) → Nat
  | [] => 0
  | (_, type) :: rest => type.size + sizeOfMembers rest

end

/-- Whether numbers of this type have a sign: floats do, an enumeration does
if its base does. -/
def isSigned : Datatype → Bool
  | .integer _ signed _ => signed
  | .float .. => true
  | .enumeration base _ _ => base.isSigned
  | _ => false

/-- The base of an array, a sequence or an enumeration. -/
def base? : Datatype → Option Datatype
  | .array base _ _ | .sequence base _ | .enumeration base _ _ => some base
  | _ => none

/-- The members of a compound, none for other types. -/
def members : Datatype → List (String × Datatype)
  | .compound members _ => members
  | _ => []

/-- The extents of an array, none for other types. -/
def extents : Datatype → List Nat
  | .array _ extents _ => extents
  | _ => []

/-- The named values of an enumeration, none for other types. -/
def values : Datatype → List (String × Int)
  | .enumeration _ values _ => values
  | _ => []

/-- The flavor of a reference. -/
def flavor? : Datatype → Option ReferenceFlavor
  | .reference flavor _ => some flavor
  | _ => none

/-- Whether the type is a compound. -/
def isCompound : Datatype → Bool
  | .compound .. => true
  | _ => false

/-- Whether the type is an array. -/
def isArray : Datatype → Bool
  | .array .. => true
  | _ => false

/-- Whether the type is text of any length. -/
def isVarText : Datatype → Bool
  | .varText _ => true
  | _ => false

/-- Whether the type is a sequence. -/
def isSequence : Datatype → Bool
  | .sequence .. => true
  | _ => false

/-- Whether the type is a float of sixteen bytes, which is never written. -/
def isWideFloat : Datatype → Bool
  | .float size _ => size = 16
  | _ => false

/-- Whether the type is an integer or an enumeration without a sign. -/
def isUnsigned (type : Datatype) : Bool :=
  (type.datatypeClass = .integer || type.datatypeClass = .enumeration) && !type.isSigned

/-- What is left when all arrays around it are taken off. -/
def leafBase : Datatype → Datatype
  | .array base _ _ => base.leafBase
  | type => type

/-- The count of innermost elements in one element: one unless it is an
array. -/
def arrayLength : Datatype → Nat
  | .array base extents _ => gridSize extents * base.arrayLength
  | _ => 1

mutual

/-- Whether the type or anything below it is of a class. -/
def contains (c : DatatypeClass) : Datatype → Bool
  | .compound members _ => c = .compound || membersContain c members
  | .array base _ _ => c = .array || base.contains c
  | .sequence base _ => c = .sequence || base.contains c
  | .enumeration base _ _ => c = .enumeration || base.contains c
  | type => c = type.datatypeClass

/-- Whether any of the members contains a class. -/
def membersContain (c : DatatypeClass) : List (String × Datatype) → Bool
  | [] => false
  | (_, type) :: rest => type.contains c || membersContain c rest

end

/-! ## Names of enumerated values -/

/-- The first name of a value. -/
def nameOfValue? (type : Datatype) (value : Int) : Option String :=
  (type.values.find? fun named => named.2 == value).map (·.1)

/-- The value of the first entry with a name. -/
def valueOfName? (type : Datatype) (name : String) : Option Int :=
  (type.values.find? fun named => named.1 == name).map (·.2)

end Datatype

end TypedAttr
