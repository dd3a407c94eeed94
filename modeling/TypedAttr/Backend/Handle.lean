import TypedAttr.Error
/-!
# Handles

A backend lends handles and wants each of them back. `acquire` takes one;
`withHandle` takes one for the length of a computation and gives it back at
the end, whether the computation succeeds or fails. That giving it back
fails changes nothing for the caller.
-/

namespace TypedAttr

/-- A computation on a backend's state. It can fail, and then what it did to
the state up to there remains. -/
abbrev Action (σ α : Type) := EStateM Error σ α

/-- The number of an open handle. Negative numbers are of no handle. -/
structure HandleId where
  number : Int
  deriving DecidableEq, Inhabited

namespace HandleId

/-- Whether the number can be of a handle. -/
def isValid (id : HandleId) : Bool := 0 ≤ id.number

/-- The text of a handle's number. -/
def render (id : HandleId) : String := s!"#{id.number}"

end HandleId

/-- What a handle is for. -/
inductive HandleKind where
  | attribute
  | datatype
  | dataspace
  | object
  | region
  deriving DecidableEq, Inhabited

namespace HandleKind

/-- The name of a kind. -/
def name : HandleKind → String
  | .attribute => "attribute"
  | .datatype => "datatype"
  | .dataspace => "dataspace"
  | .object => "object"
  | .region => "region"

/-- The kind of a name. -/
def ofName? (name : String) : Option HandleKind :=
  [.attribute, .datatype, .dataspace, .object, .region].find? fun (kind : HandleKind) =>
    kind.name == name

end HandleKind

/-- A handle that was taken and not yet given back. -/
structure HeldHandle where
  kind : HandleKind
  id : HandleId
  deriving DecidableEq, Inhabited

/-- The text that tells a held handle. -/
def HeldHandle.debugText (handle : HeldHandle) : String :=
  "ScopedHandle \x7b kind: " ++ handle.kind.name.capitalize ++
    s!", id: HandleId({handle.id.number}) \x7d"

namespace Error

/-- Any error on the way to a handle, as an error of taking it. -/
def asHandleOpen (kind : HandleKind) : Error → Error
  | .handleOpen kind reason => .handleOpen kind reason
  | e => .handleOpen kind.name e.message

/-- The backend's answer is not the number of a handle. -/
def invalidHandle (kind : HandleKind) (id : HandleId) : Error :=
  .handleOpen kind.name s!"invalid id {id.render}"

end Error

variable {σ α : Type}

/-- Takes a handle. -/
def acquire (kind : HandleKind) (take : Action σ HandleId) : Action σ HandleId := fun s =>
  match take s with
  | .error e s => .error (e.asHandleOpen kind) s
  | .ok id s => if id.isValid then .ok id s else .error (.invalidHandle kind id) s

/-- The state after an action, whatever comes of it. -/
def stateAfter (action : Action σ α) (s : σ) : σ :=
  match action s with
  | .ok _ s => s
  | .error _ s => s

/-- Runs a computation with a handle that is given back at its end. -/
def withHandle (release : HandleKind → HandleId → Action σ Unit) (kind : HandleKind)
    (take : Action σ HandleId) (body : HandleId → Action σ α) : Action σ α := fun s =>
  match acquire kind take s with
  | .error e s => .error e s
  | .ok id s =>
    match body id s with
    | .ok a s => .ok a (stateAfter (release kind id) s)
    | .error e s => .error e (stateAfter (release kind id) s)

/-- What an action yields, if it succeeds. -/
def attempt (action : Action σ α) : StateM σ (Option α) := fun s =>
  match action s with
  | .ok a s => (some a, s)
  | .error _ s => (none, s)

/-- Lifts a result that was had without the backend. -/
def Action.ofExcept : Except Error α → Action σ α
  | .ok a => pure a
  | .error e => throw e

end TypedAttr
