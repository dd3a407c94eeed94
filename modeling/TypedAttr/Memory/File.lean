import TypedAttr.Datatype.Basic
import TypedAttr.Reference.Lookups
/-!
# Files in memory

A file holds objects by path and remembers every token it has handed out,
so that it can answer for them. It keeps account of the handles it lends and
of the questions it is asked, and any question can be made to fail by its
name.
-/

namespace TypedAttr

namespace Memory

/-- The number of an object in its file. -/
structure ObjectId where
  index : Nat
  deriving DecidableEq, Inhabited

/-- The text of an object's number. -/
def ObjectId.render (id : ObjectId) : String := s!"ObjectId({id.index})"

/-- An object of a file. -/
structure StoredObject where
  path : String
  type : ObjectType
  extents : List Nat
  deriving DecidableEq

/-- The region that a reference selects. -/
inductive RegionSelection where
  /-- One tuple of coordinates per point. -/
  | points (items : List (List Nat))
  /-- Two corners per block. -/
  | blocks (items : List (List Nat × List Nat))
  /-- Everything. -/
  | whole
  deriving DecidableEq, Inhabited

/-- How a selection is given. -/
def RegionSelection.type : RegionSelection → SelectionType
  | .points _ => .points
  | .blocks _ => .hyperslabs
  | .whole => .all

/-- What a token refers to. -/
inductive Target where
  | object (id : ObjectId)
  | region (id : ObjectId) (selection : RegionSelection)
  | attribute (id : ObjectId) (name : String) (rank : Nat)
  | other (id : ObjectId)
  deriving DecidableEq, Inhabited

/-- The object that a target is or belongs to. -/
def Target.objectId : Target → ObjectId
  | .object id | .region id _ | .attribute id _ _ | .other id => id

/-- What is remembered of a token. -/
structure StoredReference where
  kind : ReferenceKind
  target : Target
  deriving DecidableEq, Inhabited

/-- What an open handle is for. -/
inductive OpenHandle where
  | attribute (rank : Nat)
  | nativeType
  | object (id : ObjectId)
  | region (selection : RegionSelection) (rank : Nat)
  | space (rank : Nat)
  deriving DecidableEq, Inhabited

/-- The kind under which a handle is lent and taken back. -/
def OpenHandle.kind : OpenHandle → HandleKind
  | .attribute _ => .attribute
  | .nativeType => .datatype
  | .object _ => .object
  | .region _ _ => .region
  | .space _ => .dataspace

/-- A file. -/
structure File where
  path : String
  objects : List StoredObject := []
  references : List (Token × StoredReference) := []
  /-- The handles that are out. -/
  handles : List (HandleId × OpenHandle) := []
  /-- The count of handles ever lent, which numbers the next one. -/
  lent : Nat := 0
  /-- The questions that fail. -/
  faults : List String := []
  /-- The count of questions asked. -/
  calls : Nat := 0
  /-- The count of tokens ever handed out. -/
  minted : Nat := 0
  deriving DecidableEq

namespace File

/-- An empty file. -/
def ofPath (path : String) : File := { path := path }

instance : Inhabited File := ⟨ofPath ""⟩

/-! ## Objects -/

/-- The file with one more object, and its number. -/
def addObject (path : String) (type : ObjectType) (extents : List Nat) (file : File) :
    ObjectId × File :=
  (⟨file.objects.length⟩, { file with objects := file.objects ++ [⟨path, type, extents⟩] })

/-- The first object at a path. -/
def find? (file : File) (path : String) : Option ObjectId :=
  (file.objects.findIdx? fun object => object.path == path).map ObjectId.mk

/-- The object of a number. -/
def object (file : File) (id : ObjectId) : Except Error StoredObject :=
  match file.objects[id.index]? with
  | some object => .ok object
  | none => .error (.notFound s!"object {id.render}")

/-! ## Tokens -/

/-- The byte that tells tokens of different kinds apart. -/
def kindCode : ReferenceKind → UInt8
  | .unknown => 0xff
  | .objectAddress => 0
  | .regionAddress => 1
  | .object => 2
  | .region => 3
  | .attribute => 4
  | .other => 5

/-- The bytes of the token with a number: the number, then the kind if there
is room, then zeros. -/
def tokenBytes (size : Nat) (kind : ReferenceKind) (number : Nat) : Bytes :=
  ((ByteOrder.little.write 8 number ++ [kindCode kind]) ++ Bytes.zeros (size - 9)).take size

/-- Hands out a new token of a kind. Numbers begin with one, so no token is
all zeros. -/
def mint (size : Nat) (kind : ReferenceKind) (target : Target) (file : File) : Token × File :=
  let number := file.minted + 1
  let token : Token := ⟨tokenBytes size kind number⟩
  (token,
    { file with
      minted := number
      references := (token, ⟨kind, target⟩) :: file.references })

/-- A standard token for an object. -/
def mintObject (id : ObjectId) : File → Token × File :=
  mint ReferenceFlavor.standard.tokenSize .object (.object id)

/-- A standard token for a region of an object. -/
def mintRegion (id : ObjectId) (selection : RegionSelection) : File → Token × File :=
  mint ReferenceFlavor.standard.tokenSize .region (.region id selection)

/-- A standard token for an attribute of an object. -/
def mintAttribute (id : ObjectId) (name : String) (rank : Nat) : File → Token × File :=
  mint ReferenceFlavor.standard.tokenSize .attribute (.attribute id name rank)

/-- A standard token of a kind that no one knows. -/
def mintOther (id : ObjectId) : File → Token × File :=
  mint ReferenceFlavor.standard.tokenSize .other (.other id)

/-- A token that is an object's address. -/
def mintObjectAddress (id : ObjectId) : File → Token × File :=
  mint ReferenceFlavor.object.tokenSize .objectAddress (.object id)

/-- A token for a region in the short form. -/
def mintRegionAddress (id : ObjectId) (selection : RegionSelection) : File → Token × File :=
  mint ReferenceFlavor.region.tokenSize .regionAddress (.region id selection)

/-- What is remembered of a token. -/
def reference (file : File) (token : Token) : Except Error StoredReference :=
  match file.references.find? (·.1 = token) with
  | some (_, reference) => .ok reference
  | none => .error (.notFound s!"reference {token.render}")

/-- The object that a token leads to. -/
def targetObject (file : File) (token : Token) : Except Error StoredObject := do
  file.object (← file.reference token).target.objectId

/-! ## Faults -/

/-- The file with a question failing from now on. -/
def fail (name : String) (file : File) : File :=
  if name ∈ file.faults then file else { file with faults := name :: file.faults }

/-- The file with a question answered again. -/
def heal (name : String) (file : File) : File :=
  { file with faults := file.faults.filter (· ≠ name) }

/-- Counts a question, and lets it fail if it is to. -/
def enter (name : String) : Action File Unit := fun file =>
  let file := { file with calls := file.calls + 1 }
  if name ∈ file.faults then .error (.resolution s!"{name} failed") file else .ok () file

/-! ## Handles -/

/-- Lends a new handle. -/
def lend (handle : OpenHandle) : Action File HandleId := fun file =>
  let id : HandleId := ⟨file.lent⟩
  .ok id { file with lent := file.lent + 1, handles := (id, handle) :: file.handles }

/-- What an open handle is for. -/
def handle? (file : File) (id : HandleId) : Option OpenHandle :=
  (file.handles.find? (·.1 = id)).map (·.2)

/-- Refuses a number that is not of an open handle of a kind. -/
def checkHandle (file : File) (kind : HandleKind) (id : HandleId) : Except Error Unit :=
  match file.handle? id with
  | some handle =>
    if handle.kind = kind then .ok ()
    else .error (.other s!"handle {id.render} is a {handle.kind.name} handle, not {kind.name}")
  | none => .error (.other s!"handle {id.render} is not open")

/-- Takes a handle back. -/
def release (kind : HandleKind) (id : HandleId) : Action File Unit := fun file =>
  match file.checkHandle kind id with
  | .ok () => .ok () { file with handles := file.handles.filter (·.1 ≠ id) }
  | .error e => .error e file

/-- What an open handle is for, to a question that needs it open. -/
def opened (file : File) (id : HandleId) : Except Error OpenHandle :=
  match file.handle? id with
  | some handle => .ok handle
  | none => .error (.resolution s!"handle {id.render} is not open")

/-- The error of a handle without a dataspace. -/
def noDataspace (id : HandleId) : Error :=
  .resolution s!"handle {id.render} is not a dataspace"

/-! ## Questions -/

/-- An answer that is looked up in the file, to a question of a name. -/
def answer {α : Type} (name : String) (lookup : File → Except Error α) : Action File α := do
  enter name
  Action.ofExcept (lookup (← get))

/-- A handle that is lent for what is looked up in the file. -/
def answerHandle (name : String) (lookup : File → Except Error OpenHandle) :
    Action File HandleId := do
  lend (← answer name lookup)

/-- The rank of an open dataspace. -/
def rankOfSpace (file : File) (id : HandleId) : Except Error Nat := do
  match ← file.opened id with
  | .region _ rank | .space rank => return rank
  | _ => throw (noDataspace id)

/-- How the selection of an open dataspace is given. -/
def selectionOfSpace (file : File) (id : HandleId) : Except Error SelectionType := do
  match ← file.opened id with
  | .region selection _ => return selection.type
  | .space _ => return .all
  | _ => throw (noDataspace id)

/-- The questions that a file answers. -/
def lookups : ReferenceLookups File where
  release := release
  kind token := answer "reference_kind" fun file => return (← file.reference token).kind
  fileName token := answer "file_name" fun file => do
    let _ ← file.reference token
    return file.path
  objectName token := answer "object_name" fun file => return (← file.targetObject token).path
  attributeName token := answer "attribute_name" fun file => do
    match (← file.reference token).target with
    | .attribute _ name _ => return name
    | _ => throw (.resolution "not an attribute reference")
  objectType token := answer "object_type" fun file => return (← file.targetObject token).type
  openObject token := answerHandle "open_object" fun file =>
    return .object (← file.reference token).target.objectId
  openRegion token := answerHandle "open_region" fun file => do
    match (← file.reference token).target with
    | .region id selection => return .region selection (← file.object id).extents.length
    | _ => throw (.resolution "not a region reference")
  openAttribute token := answerHandle "open_attribute" fun file => do
    match (← file.reference token).target with
    | .attribute _ _ rank => return .attribute rank
    | _ => throw (.resolution "not an attribute reference")
  attributeSpace id := answerHandle "attribute_space" fun file => do
    match ← file.opened id with
    | .attribute rank => return .space rank
    | _ => throw (.resolution s!"handle {id.render} is not an attribute")
  spaceRank id := answer "space_rank" (rankOfSpace · id)
  selectionType id := answer "selection_type" (selectionOfSpace · id)
  selectionPoints id := answer "selection_points" fun file => do
    match ← file.opened id with
    | .region (.points items) _ => return items.flatten
    | _ => throw (.resolution "selection is not a point list")
  selectionBlocks id := answer "selection_blocks" fun file => do
    match ← file.opened id with
    | .region (.blocks items) _ => return items.flatMap fun (low, high) => low ++ high
    | _ => throw (.resolution "selection is not a block list")

end File

end Memory

end TypedAttr
