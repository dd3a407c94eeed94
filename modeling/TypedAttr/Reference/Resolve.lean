import TypedAttr.Datatype.Basic
import TypedAttr.Reference.Lookups
import TypedAttr.Reference.Region
import TypedAttr.Reference.RecordCache
/-!
# Resolving tokens

A token becomes a record by asking the backend one question after another.
A question that fails leaves its field unset and the others untouched, so
there is always a record. Records are cached, and an all-zero token is
never asked about.
-/

namespace TypedAttr

/-- What follows the last stroke of a path. -/
def lastSegment (path : String) : String :=
  String.ofList ((path.toList.reverse.takeWhile (· != '/')).reverse)

namespace ReferenceLookups

variable {σ : Type}

/-- Asks a question and puts its answer, if there is one, into a record. -/
def ask {α : Type} (question : Action σ α) (put : α → Record → Record) (record : Record) :
    StateM σ Record := do
  match ← attempt question with
  | some answer => return put answer record
  | none => return record

/-- Goes on with a handle, if it can be had, and gives it back afterwards. -/
def borrow (lookups : ReferenceLookups σ) (kind : HandleKind) (take : Action σ HandleId)
    (body : HandleId → Record → StateM σ Record) (record : Record) : StateM σ Record := do
  match ← attempt (acquire kind take) with
  | none => return record
  | some id =>
    let found ← body id record
    modify (stateAfter (lookups.release kind id))
    return found

/-- The file and the object. -/
def location (lookups : ReferenceLookups σ) (token : Token) (record : Record) :
    StateM σ Record := do
  let record ← ask (lookups.fileName token)
    (fun path record => { record with filePath := path, fileName := lastSegment path }) record
  ask (lookups.objectName token) (fun name record => { record with objectName := name }) record

/-- The kind, and the name of the attribute if it is one. -/
def kindAndAttribute (lookups : ReferenceLookups σ) (token : Token) (record : Record) :
    StateM σ Record := do
  let record ← ask (lookups.kind token) (fun kind record => { record with kind := kind }) record
  if record.kind = .attribute then
    ask (lookups.attributeName token) (fun name record => { record with attributeName := name })
      record
  else return record

/-- The type of the object. -/
def typeOfObject (lookups : ReferenceLookups σ) (token : Token) (record : Record) :
    StateM σ Record :=
  ask (lookups.objectType token) (fun type record => { record with objectType := type }) record

/-- A region's text, if both its rank and its coordinates are known. The
coordinates are asked for even if the rank is not known. -/
def coordinates (question : Action σ (List Nat)) (text : Nat → List Nat → String)
    (record : Record) : StateM σ Record := do
  match ← attempt question, record.regionRank with
  | some coordinates, some rank => return { record with regionText := text rank coordinates }
  | _, _ => return record

/-- The region that a dataspace's selection is. -/
def regionOfSpace (lookups : ReferenceLookups σ) (space : HandleId) (record : Record) :
    StateM σ Record := do
  match ← attempt (lookups.selectionType space) with
  | none => return record
  | some selection =>
    let rank ← attempt (lookups.spaceRank space)
    let record := { record with regionRank := rank }
    match selection with
    | .points =>
      coordinates (lookups.selectionPoints space) Region.pointsText
        { record with regionType := .points }
    | .hyperslabs =>
      coordinates (lookups.selectionBlocks space) Region.blocksText
        { record with regionType := .blocks }
    | .none | .all => return { record with regionType := .otherRegion }

/-- The region of a dataset. The object is held open while its region is
looked at. -/
def region (lookups : ReferenceLookups σ) (token : Token) (record : Record) :
    StateM σ Record :=
  lookups.borrow .object (lookups.openObject token)
    (fun _ record =>
      lookups.borrow .region (lookups.openRegion token) lookups.regionOfSpace record)
    record

/-- The rank of an attribute. -/
def rankOfAttribute (lookups : ReferenceLookups σ) (token : Token) (record : Record) :
    StateM σ Record :=
  lookups.borrow .attribute (lookups.openAttribute token)
    (fun opened record =>
      lookups.borrow .dataspace (lookups.attributeSpace opened)
        (fun space record => do
          return { record with regionRank := ← attempt (lookups.spaceRank space) })
        record)
    record

/-- What a standard token refers to in its object, by the token's kind. -/
def standardRegion (lookups : ReferenceLookups σ) (token : Token) (record : Record) :
    StateM σ Record := do
  match record.kind with
  | .unknown => return record
  | .objectAddress | .object =>
    return { ← lookups.typeOfObject token record with regionType := .object }
  | .regionAddress | .region =>
    lookups.region token (← lookups.typeOfObject token record)
  | .attribute =>
    lookups.rankOfAttribute token
      { ← lookups.typeOfObject token record with regionType := .attribute }
  | .other => return { ← lookups.typeOfObject token record with regionType := .unknown }

/-- The record of a token, asked for without a cache. -/
def resolve (lookups : ReferenceLookups σ) (flavor : ReferenceFlavor) (token : Token) :
    StateM σ Record := do
  if token.isNull then return .null token
  let record ← lookups.location token (.null token)
  match flavor with
  | .standard => lookups.standardRegion token (← lookups.kindAndAttribute token record)
  | .region =>
    lookups.region token { record with kind := .regionAddress, objectType := .dataset }
  | .object =>
    let record ← lookups.typeOfObject token { record with kind := .objectAddress }
    return { record with regionType := .object }

end ReferenceLookups

/-- Look-ups and the records that were made with them. -/
structure Resolver (σ : Type) where
  lookups : ReferenceLookups σ
  flavor : ReferenceFlavor

namespace Resolver

variable {σ : Type}

/-- A computation on a cache and a backend. -/
abbrev Query (σ α : Type) := StateT RecordCache (StateM σ) α

/-- Resolves a token and keeps its record. -/
def resolveAndKeep (resolver : Resolver σ) (token : Token) : Query σ Record := do
  let record ← resolver.lookups.resolve resolver.flavor token
  modify (·.insert record)
  return record

/-- The record of a token, from the cache if it is there. -/
def record (resolver : Resolver σ) (token : Token) : Query σ Record := do
  match ← modifyGet (·.get token) with
  | some record => return record
  | none => resolver.resolveAndKeep token

/-- The text of a token's region. -/
def regionText (resolver : Resolver σ) (token : Token) : Query σ String := do
  return (← resolver.record token).regionText

/-- Resolves the tokens that have no record in the cache. -/
def init (resolver : Resolver σ) : List Token → Query σ Unit
  | [] => return
  | token :: rest => do
    if !(← get).contains token then
      let _ ← resolver.resolveAndKeep token
    resolver.init rest

/-- The records of tokens, in order. -/
def records (resolver : Resolver σ) (tokens : List Token) : Query σ (List Record) :=
  tokens.mapM resolver.record

/-- A text cut to a count of characters; zero means no limit. -/
def cut (limit : Nat) (text : String) : String :=
  if limit = 0 then text else String.ofList (text.toList.take limit)

/-- One text per token, each cut to a count of characters. -/
def display (resolver : Resolver σ) (limit : Nat) (tokens : List Token) : Query σ String := do
  let records ← resolver.records tokens
  return ", ".intercalate (records.map fun record => cut limit record.referenceRegion)

end Resolver

end TypedAttr
