import TypedAttr.Attribute.Transaction
import TypedAttr.Reference.Resolve
import TypedAttr.Settings.Basic
/-!
# Attributes

An attribute reads its data once and keeps them until they may be stale:
until it is written, or another selection or other members are chosen. It
resolves the tokens in its data, and keeps their records, too.
-/

namespace TypedAttr

/-- What an attribute keeps beside its source. -/
structure Attribute where
  settings : Settings
  selection : Selection
  members : MemberSelection := .all
  /-- The data, once they were read. -/
  data : Option Data := none
  records : RecordCache

namespace Attribute

variable {σ : Type}

/-- An attribute of a space, not read yet. -/
def ofSpace (space : Dataspace) (settings : Settings) : Attribute where
  settings := settings
  selection := .ofSpace space
  records := .ofCapacity settings.cacheCapacity.toNat

/-- Whether the data were read. -/
def isLoaded (attr : Attribute) : Bool := attr.data.isSome

/-- Forgets the data. -/
def clear (attr : Attribute) : Attribute := { attr with data := none }

/-- Shows another part of the data. -/
def setSelection (selection : Selection) (attr : Attribute) : Attribute :=
  { attr with selection := selection }.clear

/-- Reads and writes other members of compounds. -/
def selectMembers (members : MemberSelection) (attr : Attribute) : Attribute :=
  { attr with members := members }.clear

/-- How elements are read and written. -/
def options (attr : Attribute) : ElementOptions :=
  { attr.settings.elementOptions with members := attr.members }

/-- A computation on an attribute and its backend. -/
abbrev Use (σ α : Type) := EStateM Error (Attribute × σ) α

/-- An action of the backend. -/
def onBackend {α : Type} : Action σ α → Use σ α :=
  Action.onPart Prod.snd fun s pair => (pair.1, s)

/-- The attribute itself. -/
def self : Use σ Attribute := do return (← get).1

/-- Changes the attribute itself. -/
def change (f : Attribute → Attribute) : Use σ Unit := modify fun (attr, s) => (f attr, s)

/-! ## Data -/

/-- All elements, from the backend only if they were not read before. -/
def read (source : AttributeSource σ) : Use σ Data := do
  match (← self).data with
  | some data => return data
  | none =>
    let data ← onBackend (source.read (← self).options)
    change fun attr => { attr with data := some data }
    return data

/-- The part of the data that the selection shows, if a word counts what is in
it. -/
def readSelection (source : AttributeSource σ) : Use σ (Option Data) := do
  let data ← read source
  return data.applySelection source.type (← self).selection

/-- Writes all elements, and forgets those that were read. -/
def write (source : AttributeSource σ) (data : Data) : Use σ Unit := do
  onBackend (source.write (← self).options data)
  change clear

/-! ## References -/

/-- The error of an attribute that holds no references. -/
def noReference (actual : String) : Error := .typeMismatch "reference" actual

/-- Asks a question about tokens with the records that are kept. -/
def resolving {α : Type} (source : AttributeSource σ) (lookups : ReferenceLookups σ)
    (query : Resolver σ → Resolver.Query σ α) : Use σ α := fun (attr, s) =>
  match source.type.flavor? with
  | none => .error (noReference source.type.datatypeClass.name) (attr, s)
  | some flavor =>
    let ((answer, records), s) := query ⟨lookups, flavor⟩ attr.records s
    .ok answer ({ attr with records := records }, s)

/-- The record of a token. -/
def referenceRecord (source : AttributeSource σ) (lookups : ReferenceLookups σ)
    (token : Token) : Use σ Record :=
  resolving source lookups (·.record token)

/-- The text of a token's region. -/
def regionText (source : AttributeSource σ) (lookups : ReferenceLookups σ) (token : Token) :
    Use σ String :=
  resolving source lookups (·.regionText token)

/-- The tokens in the data. -/
def referenceTokens (source : AttributeSource σ) : Use σ (List Token) := do
  let data ← read source
  match data.tokens? with
  | some tokens => return tokens
  | none => throw (noReference data.kindName)

/-- The records of all tokens in the data. -/
def referenceRecords (source : AttributeSource σ) (lookups : ReferenceLookups σ) :
    Use σ (List Record) := do
  let tokens ← referenceTokens source
  resolving source lookups fun resolver => do
    resolver.init tokens
    resolver.records tokens

/-- One text per token in the data, each cut as the settings say. -/
def displayReferences (source : AttributeSource σ) (lookups : ReferenceLookups σ) :
    Use σ String := do
  let tokens ← referenceTokens source
  let limit := (← self).settings.displayLimit.toNat
  resolving source lookups (·.display limit tokens)

end Attribute

end TypedAttr
