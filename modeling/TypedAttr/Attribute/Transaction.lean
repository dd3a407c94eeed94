import TypedAttr.Backend.Source
import TypedAttr.Data.Packed
/-!
# Transactions

One transaction reads or writes all elements of an attribute. It holds the
attribute's handle and its type's for its whole length, and gives both back
at its end, whatever happens: the type's first. A write that can never
succeed is rejected before anything is opened.
-/

namespace TypedAttr

namespace AttributeSource

variable {σ α : Type}

/-- Runs a computation with the attribute's handle and its type's. -/
def withHandles (source : AttributeSource σ) (body : HandleId → HandleId → Action σ α) :
    Action σ α :=
  withHandle source.release .attribute source.openAttribute fun attr =>
    withHandle source.release .datatype (source.openNativeType attr) fun memory =>
      body attr memory

/-- The count of elements. -/
def count (source : AttributeSource σ) : Nat := source.space.numElements

/-! ## Reading -/

/-- All elements, once the handles are there. -/
def readWith (source : AttributeSource σ) (options : ElementOptions)
    (attr memory : HandleId) : Action σ Data :=
  match source.type with
  | .varText _ => do return .texts (← source.readVarTexts attr memory source.count)
  | .sequence base _ => do
    return .ofRuns base options (← source.readSequences attr memory source.count)
  | _ => do
    let packed ← source.readRaw attr memory (source.count * source.type.size)
    return .ofPacked source.type options source.count packed

/-- Reads all elements. -/
def read (source : AttributeSource σ) (options : ElementOptions) : Action σ Data :=
  source.withHandles (source.readWith options)

/-! ## Writing -/

/-- Rejects what can never be written. -/
def preflight (source : AttributeSource σ) (data : Data) : Except Error Unit :=
  if source.readOnly then .error .readOnly
  else if source.type.leafBase.isWideFloat || data.isWideFloat then .error .wideFloatWrite
  else if source.type.isSequence then
    .error (.unsupported "writing variable-length non-text data")
  else if source.type.flavor? = some .region then
    .error (.unsupported "writing dataset-region references")
  else if source.type.isArray && source.type.leafBase.isCompound then
    .error (.unsupported s!"writing {source.type.render}")
  else .ok ()

/-- The bytes of references to the objects at paths. All tokens are made
before the first is looked at. -/
def packPaths (source : AttributeSource σ) (paths : List String) : Action σ Data.Payload := do
  Action.ofExcept (Data.checkCount source.count paths.length)
  let flavor := source.type.flavor?.getD .standard
  let tokens ← paths.mapM fun path => source.createReference path flavor
  return .packed (← Action.ofExcept (Data.packTokens source.type tokens))

/-- What is to be stored. -/
def payload (source : AttributeSource σ) (options : ElementOptions) (data : Data) :
    Action σ Data.Payload :=
  match data.paths? source.type with
  | some paths => source.packPaths paths
  | none => Action.ofExcept (data.pack source.type options source.count)

/-- Stores all elements, once the handles are there. -/
def writeWith (source : AttributeSource σ) (options : ElementOptions) (data : Data)
    (attr memory : HandleId) : Action σ Unit := do
  match ← source.payload options data with
  | .packed bytes => source.writeRaw attr memory bytes
  | .varTexts items => source.writeVarTexts attr memory items

/-- Writes all elements. -/
def write (source : AttributeSource σ) (options : ElementOptions) (data : Data) :
    Action σ Unit := do
  Action.ofExcept (source.preflight data)
  source.withHandles (source.writeWith options data)

/-- One transaction: a write if data are given, else a read. -/
def perform (source : AttributeSource σ) (options : ElementOptions) :
    Option Data → Action σ (Option Data)
  | none => do return some (← source.read options)
  | some data => do
    source.write options data
    return none

end AttributeSource

end TypedAttr
