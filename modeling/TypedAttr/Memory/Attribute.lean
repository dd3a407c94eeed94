import TypedAttr.Backend.Source
import TypedAttr.Datatype.Text
import TypedAttr.Memory.File
/-!
# Attributes in memory

An attribute of a file in memory. Packed bytes, texts and runs of any length
are stored as such, and a transaction with the wrong kind of them fails. The
state of its backend is the file and what is stored.
-/

namespace TypedAttr

namespace Memory

/-- What is stored of an attribute. -/
inductive Content where
  /-- The packed bytes of all elements. -/
  | packed (bytes : Bytes)
  /-- One text per element. -/
  | varTexts (items : List String)
  /-- One packed run of base elements per element. -/
  | runs (items : List Bytes)
  deriving DecidableEq, Inhabited

namespace Content

/-- Zeros, empty texts or empty runs, as the type asks for. -/
def blank (type : Datatype) (space : Dataspace) : Content :=
  if type.isVarText then .varTexts (List.replicate space.numElements "")
  else if type.isSequence then .runs (List.replicate space.numElements [])
  else .packed (Bytes.zeros (space.numElements * type.size))

/-- The packed bytes, if that is what is stored. -/
def packedBytes : Content → Bytes
  | .packed bytes => bytes
  | _ => []

/-- The texts, if that is what is stored. -/
def texts : Content → List String
  | .varTexts items => items
  | _ => []

end Content

/-- What an attribute is. -/
structure StoredAttribute where
  name : String
  type : Datatype
  space : Dataspace
  readOnly : Bool := false

/-- A file and what is stored of one of its attributes. -/
structure Store where
  file : File
  content : Content

/-- The first `count` items of a list, or all of it followed by fills. -/
def resized {α : Type} (fill : α) (count : Nat) (items : List α) : List α :=
  items.take count ++ List.replicate (count - items.length) fill

namespace StoredAttribute

/-- An action on the file. -/
def onFile {α : Type} : Action File α → Action Store α :=
  Action.onPart Store.file fun file store => { store with file := file }

/-- Counts an operation, checks its handles, and looks at what is stored. An
error with the handles is one of the operation. -/
def access (name : String) (wrap : String → Error) (attr memory : HandleId) :
    Action Store Content := do
  onFile (File.enter name)
  let store ← get
  let checked := do
    store.file.checkHandle .attribute attr
    store.file.checkHandle .datatype memory
  match checked with
  | .ok () => return store.content
  | .error e => throw (wrap e.message)

/-- Replaces what is stored. -/
def keep (content : Content) : Action Store Unit :=
  modify fun store => { store with content := content }

/-- The token that a file makes for the object at a path. -/
def createReference (path : String) (flavor : ReferenceFlavor) : Action File Token := do
  File.enter "create_reference"
  match (← get).find? path with
  | none => throw (.notFound path)
  | some id =>
    match flavor with
    | .standard => modifyGet (File.mintObject id)
    | .object => modifyGet (File.mintObjectAddress id)
    | .region => throw (.unsupported "region reference from a path")

/-- The attribute as a source of data. -/
def source (stored : StoredAttribute) : AttributeSource Store where
  name := stored.name
  type := stored.type
  space := stored.space
  readOnly := stored.readOnly
  release kind id := onFile (File.release kind id)
  openAttribute := onFile do
    File.enter "open_attribute"
    File.lend (.attribute stored.space.rank)
  openNativeType attr := onFile do
    File.enter "open_native_type"
    Action.ofExcept ((← get).checkHandle .attribute attr)
    File.lend .nativeType
  readRaw attr memory length := do
    match ← access "read_raw" .readFailed attr memory with
    | .packed bytes =>
      if bytes.length = length then return bytes
      else
        throw (.readFailed
          s!"{stored.name}: stored {bytes.length} bytes, requested {length}")
    | _ => throw (.readFailed s!"{stored.name}: variable-length data read as fixed-width")
  readVarTexts attr memory count := do
    match ← access "read_var_strings" .readFailed attr memory with
    | .varTexts items => return resized "" count items
    | _ => throw (.readFailed s!"{stored.name}: not a variable-length string")
  readSequences attr memory count := do
    match ← access "read_var_len" .readFailed attr memory with
    | .runs items => return resized [] count items
    | _ => throw (.readFailed s!"{stored.name}: not a variable-length sequence")
  writeRaw attr memory bytes := do
    let _ ← access "write_raw" .writeFailed attr memory
    let expected := stored.space.numElements * stored.type.size
    if bytes.length = expected then keep (.packed bytes)
    else throw (.writeFailed s!"{stored.name}: expected {expected} bytes, got {bytes.length}")
  writeVarTexts attr memory items := do
    let _ ← access "write_var_strings" .writeFailed attr memory
    keep (.varTexts items)
  createReference path flavor := onFile (createReference path flavor)

/-- The look-ups of the attribute's file. -/
def lookups : ReferenceLookups Store :=
  File.lookups.onPart Store.file fun file store => { store with file := file }

end StoredAttribute

end Memory

end TypedAttr
