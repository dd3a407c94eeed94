import TypedAttr.Backend.Handle
import TypedAttr.Dataspace
import TypedAttr.Datatype.Basic
import TypedAttr.Reference.Token
/-!
# Attribute sources

What a backend offers for one attribute: what the attribute is, and the
operations on what is stored. A backend that only reads fixed-width data
leaves the operations after `readRaw` as they are, which rejects them.
-/

namespace TypedAttr

/-- One attribute of a backend whose state is `σ`. -/
structure AttributeSource (σ : Type) where
  name : String
  type : Datatype
  space : Dataspace
  readOnly : Bool := false
  /-- Takes a handle back. -/
  release : HandleKind → HandleId → Action σ Unit
  /-- Lends a handle for the attribute. -/
  openAttribute : Action σ HandleId
  /-- Lends a handle for the attribute's type in memory, given the
  attribute's handle. -/
  openNativeType : HandleId → Action σ HandleId
  /-- The packed bytes of all elements, given the attribute's handle, the
  type's, and the count of bytes. -/
  readRaw : HandleId → HandleId → (length : Nat) → Action σ Bytes
  /-- One text per element. -/
  readVarTexts : HandleId → HandleId → (count : Nat) → Action σ (List String) :=
    fun _ _ _ => throw (.unsupported s!"{name}: variable-length string read")
  /-- One packed run of base elements per element. -/
  readSequences : HandleId → HandleId → (count : Nat) → Action σ (List Bytes) :=
    fun _ _ _ => throw (.unsupported s!"{name}: variable-length read")
  /-- Stores the packed bytes of all elements. -/
  writeRaw : HandleId → HandleId → Bytes → Action σ Unit :=
    fun _ _ _ => throw (.unsupported s!"{name}: raw write")
  /-- Stores one text per element. -/
  writeVarTexts : HandleId → HandleId → List String → Action σ Unit :=
    fun _ _ _ => throw (.unsupported s!"{name}: variable-length string write")
  /-- Makes a token for the object at a path. -/
  createReference : (path : String) → ReferenceFlavor → Action σ Token :=
    fun path _ => throw (.unsupported s!"{name}: create reference to {path}")

end TypedAttr
