import TypedAttr.Backend.Handle
import TypedAttr.Reference.Record
/-!
# Look-ups

What a backend answers about tokens, and about the dataspaces they lead to.
Any of these may fail.
-/

namespace TypedAttr

/-- The questions a backend whose state is `σ` answers. -/
structure ReferenceLookups (σ : Type) where
  /-- Takes a handle back. -/
  release : HandleKind → HandleId → Action σ Unit
  kind : Token → Action σ ReferenceKind
  /-- The path of the file that holds the object. -/
  fileName : Token → Action σ String
  /-- The path of the object. -/
  objectName : Token → Action σ String
  /-- The name of the attribute, if it is one that is referred to. -/
  attributeName : Token → Action σ String
  objectType : Token → Action σ ObjectType
  /-- Lends a handle for the object. -/
  openObject : Token → Action σ HandleId
  /-- Lends a handle for the dataspace with the region. -/
  openRegion : Token → Action σ HandleId
  /-- Lends a handle for the attribute. -/
  openAttribute : Token → Action σ HandleId
  /-- Lends a handle for the dataspace of an attribute. -/
  attributeSpace : HandleId → Action σ HandleId
  spaceRank : HandleId → Action σ Nat
  selectionType : HandleId → Action σ SelectionType
  /-- The coordinates of the points, one after the other. -/
  selectionPoints : HandleId → Action σ (List Nat)
  /-- The coordinates of the blocks, both corners of one after the other. -/
  selectionBlocks : HandleId → Action σ (List Nat)

/-- An action on a part of a state, as an action on all of it. -/
def Action.onPart {σ τ α : Type} (get : τ → σ) (put : σ → τ → τ) (action : Action σ α) :
    Action τ α := fun t =>
  match action (get t) with
  | .ok a s => .ok a (put s t)
  | .error e s => .error e (put s t)

/-- The look-ups of a backend that is part of another. -/
def ReferenceLookups.onPart {σ τ : Type} (get : τ → σ) (put : σ → τ → τ)
    (lookups : ReferenceLookups σ) : ReferenceLookups τ where
  release kind id := (lookups.release kind id).onPart get put
  kind token := (lookups.kind token).onPart get put
  fileName token := (lookups.fileName token).onPart get put
  objectName token := (lookups.objectName token).onPart get put
  attributeName token := (lookups.attributeName token).onPart get put
  objectType token := (lookups.objectType token).onPart get put
  openObject token := (lookups.openObject token).onPart get put
  openRegion token := (lookups.openRegion token).onPart get put
  openAttribute token := (lookups.openAttribute token).onPart get put
  attributeSpace id := (lookups.attributeSpace id).onPart get put
  spaceRank id := (lookups.spaceRank id).onPart get put
  selectionType id := (lookups.selectionType id).onPart get put
  selectionPoints id := (lookups.selectionPoints id).onPart get put
  selectionBlocks id := (lookups.selectionBlocks id).onPart get put

end TypedAttr
