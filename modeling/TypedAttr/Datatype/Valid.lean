import TypedAttr.Datatype.Basic
import TypedAttr.Error
/-!
# Well-formed datatypes

Two things can be wrong with a tree: an array without extents, and an
enumeration whose base is no integer. `validate` reports the first of them
from the outside in.
-/

namespace TypedAttr

namespace Datatype

/-- The error of an array without extents. -/
def noExtents : Error := .invalidDatatype "array without extents"

/-- The error of an enumeration over a base of some other class. -/
def wrongEnumerationBase (c : DatatypeClass) : Error :=
  .invalidDatatype s!"enum base must be an integer, got {c.name}"

mutual

/-- Checks a datatype and what it consists of. The base of an enumeration
is only asked for its class. -/
def validate : Datatype → Except Error Unit
  | .compound members _ => validateMembers members
  | .array base extents _ =>
    if extents.isEmpty then .error noExtents else base.validate
  | .sequence base _ => base.validate
  | .enumeration base _ _ =>
    if base.datatypeClass = .integer then .ok ()
    else .error (wrongEnumerationBase base.datatypeClass)
  | _ => .ok ()

/-- Checks members in declared order. -/
def validateMembers : List (String × Datatype) → Except Error Unit
  | [] => .ok ()
  | (_, type) :: rest =>
    match type.validate with
    | .ok () => validateMembers rest
    | .error e => .error e

end

end Datatype

end TypedAttr
