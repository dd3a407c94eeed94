import TypedAttr.Datatype.Valid
/-!
# Descriptors

A datatype as it is stored: one record for all classes, with its size and
sign beside its base and its members. A record can contradict itself, by a
wrong size, a base that is not there or a reference without flavor, and
`validate` looks for that as well. What is put together by the functions
below (`Descriptor.Built`) are the descriptors that a program ever has, and
`Datatype.descriptor` is the one of a tree.
-/

namespace TypedAttr

/-- A datatype with everything stored in it. Fields that a class has no use
for keep their defaults. -/
structure Descriptor where
  datatypeClass : DatatypeClass
  size : Nat
  order : ByteOrder := .little
  isSigned : Bool := false
  base? : Option Descriptor := none
  members : List (String × Descriptor) := []
  values : List (String × Int) := []
  extents : List Nat := []
  isVariable : Bool := false
  padding : Padding := .zeros
  flavor? : Option ReferenceFlavor := none

namespace Descriptor

/-! ## Putting descriptors together -/

/-- An integer, little end first. -/
def integer (size : Nat) (isSigned : Bool) : Descriptor :=
  { datatypeClass := .integer, size, isSigned }

/-- A float, little end first. -/
def float (size : Nat) : Descriptor := { datatypeClass := .float, size, isSigned := true }

/-- Text in a slot of fixed width, filled up with zeros. -/
def fixedText (size : Nat) : Descriptor :=
  { datatypeClass := .text, size, order := .unspecified }

/-- Text of any length. -/
def varText : Descriptor :=
  { datatypeClass := .text, size := Datatype.varTextSize, order := .unspecified,
    isVariable := true, padding := .terminated }

/-- A bit field, little end first. -/
def bitfield (size : Nat) : Descriptor := { datatypeClass := .bitfield, size }

/-- Bytes without meaning. -/
def blob (size : Nat) : Descriptor := { datatypeClass := .blob, size, order := .unspecified }

/-- A time, little end first. -/
def time (size : Nat) : Descriptor := { datatypeClass := .time, size }

/-- A datatype that nothing is known of. -/
def noClass : Descriptor := { datatypeClass := .noClass, size := 0 }

/-- The sizes of members added up. -/
def sizeOfMembers : List (String × Descriptor) → Nat
  | [] => 0
  | (_, d) :: rest => d.size + sizeOfMembers rest

/-- A compound of packed members. -/
def compound (members : List (String × Descriptor)) : Descriptor :=
  { datatypeClass := .compound, size := sizeOfMembers members, order := .unspecified, members }

/-- An array, in the byte order of its base. -/
def array (base : Descriptor) (extents : List Nat) : Descriptor :=
  { datatypeClass := .array, size := gridSize extents * base.size, order := base.order,
    base? := some base, extents }

/-- A sequence of any length, little end first. -/
def sequence (base : Descriptor) : Descriptor :=
  { datatypeClass := .sequence, size := Datatype.sequenceSize, base? := some base }

/-- An enumeration, with the size, the sign and the byte order of its base. -/
def enumeration (base : Descriptor) (values : List (String × Int)) : Descriptor :=
  { datatypeClass := .enumeration, size := base.size, order := base.order,
    isSigned := base.isSigned, base? := some base, values }

/-- A reference of a flavor. -/
def reference (flavor : ReferenceFlavor) : Descriptor :=
  { datatypeClass := .reference, size := flavor.tokenSize, order := .unspecified,
    flavor? := some flavor }

/-- The same descriptor in another byte order. -/
def withOrder (order : ByteOrder) (d : Descriptor) : Descriptor := { d with order }

/-- The same descriptor with another text padding. -/
def withPadding (padding : Padding) (d : Descriptor) : Descriptor := { d with padding }

/-- What the functions above put together, in any order and at any depth. -/
inductive Built : Descriptor → Prop
  | integer (size : Nat) (isSigned : Bool) : Built (integer size isSigned)
  | float (size : Nat) : Built (float size)
  | fixedText (size : Nat) : Built (fixedText size)
  | varText : Built varText
  | bitfield (size : Nat) : Built (bitfield size)
  | blob (size : Nat) : Built (blob size)
  | time (size : Nat) : Built (time size)
  | noClass : Built noClass
  | compound (members : List (String × Descriptor)) (h : ∀ member ∈ members, Built member.2) :
    Built (compound members)
  | array (base : Descriptor) (extents : List Nat) (h : Built base) : Built (array base extents)
  | sequence (base : Descriptor) (h : Built base) : Built (sequence base)
  | enumeration (base : Descriptor) (values : List (String × Int)) (h : Built base) :
    Built (enumeration base values)
  | reference (flavor : ReferenceFlavor) : Built (reference flavor)
  | withOrder (order : ByteOrder) (d : Descriptor) (h : Built d) : Built (d.withOrder order)
  | withPadding (padding : Padding) (d : Descriptor) (h : Built d) : Built (d.withPadding padding)

/-! ## What can be wrong with one -/

/-- The error of a compound whose size is not that of its members. -/
def wrongCompoundSize (size sum : Nat) : Error :=
  .invalidDatatype s!"compound size {size} != sum of member sizes {sum}"

/-- The error of an array whose size is not that of its elements. -/
def wrongArraySize (size count width : Nat) : Error :=
  .invalidDatatype s!"array size {size} != {count} elements x {width} bytes"

/-- The error of a class that has a base where none is stored. -/
def noBase (c : DatatypeClass) : Error := .invalidDatatype s!"{c.name} without base type"

/-- The error of a reference whose flavor is not stored. -/
def noFlavor : Error := .invalidDatatype "reference without flavor"

mutual

/-- Checks a descriptor and what it consists of, itself before what is
below. The base of an enumeration is only asked for its class. -/
def validate : Descriptor → Except Error Unit
  | { datatypeClass := .compound, size, members, .. } =>
    if sizeOfMembers members = size then validateMembers members
    else .error (wrongCompoundSize size (sizeOfMembers members))
  | { datatypeClass := .array, base? := none, .. } => .error (noBase .array)
  | { datatypeClass := .array, size, base? := some base, extents, .. } =>
    if extents.isEmpty then .error Datatype.noExtents
    else if gridSize extents * base.size = size then base.validate
    else .error (wrongArraySize size (gridSize extents) base.size)
  | { datatypeClass := .sequence, base? := none, .. } => .error (noBase .sequence)
  | { datatypeClass := .sequence, base? := some base, .. } => base.validate
  | { datatypeClass := .enumeration, base? := none, .. } => .error (noBase .enumeration)
  | { datatypeClass := .enumeration, base? := some base, .. } =>
    if base.datatypeClass = .integer then .ok ()
    else .error (Datatype.wrongEnumerationBase base.datatypeClass)
  | { datatypeClass := .reference, flavor? := none, .. } => .error noFlavor
  | _ => .ok ()

/-- Checks members in declared order. -/
def validateMembers : List (String × Descriptor) → Except Error Unit
  | [] => .ok ()
  | (_, d) :: rest =>
    match d.validate with
    | .ok () => validateMembers rest
    | .error e => .error e

end

end Descriptor

/-! ## The descriptor of a tree -/

namespace Datatype

mutual

/-- The descriptor of a datatype: its parts put together, and the traits of
the node set last. -/
def descriptor : Datatype → Descriptor
  | .integer size signed t => setTraits t (.integer size signed)
  | .float size t => setTraits t (.float size)
  | .fixedText size t => setTraits t (.fixedText size)
  | .varText t => setTraits t .varText
  | .bitfield size t => setTraits t (.bitfield size)
  | .blob size t => setTraits t (.blob size)
  | .time size t => setTraits t (.time size)
  | .noClass t => setTraits t .noClass
  | .compound members t => setTraits t (.compound (memberDescriptors members))
  | .array base extents t => setTraits t (.array base.descriptor extents)
  | .sequence base t => setTraits t (.sequence base.descriptor)
  | .enumeration base values t => setTraits t (.enumeration base.descriptor values)
  | .reference flavor t => setTraits t (.reference flavor)
where
  /-- A descriptor with given traits. -/
  setTraits (t : Traits) (d : Descriptor) : Descriptor :=
    (d.withOrder t.order).withPadding t.padding

/-- The descriptors of members, under their names. -/
def memberDescriptors : List (String × Datatype) → List (String × Descriptor)
  | [] => []
  | (name, type) :: rest => (name, type.descriptor) :: memberDescriptors rest

end

end Datatype

end TypedAttr
