import TypedAttr.Datatype.Basic
/-!
# Members of compounds

Where members start, and by what path they are named: the names from the
outermost compound inward, joined by dots. Arrays on the way add nothing to
a path.
-/

namespace TypedAttr

/-- The path of a member below a path. -/
def memberPath (above name : String) : String :=
  if above.isEmpty then name else above ++ "." ++ name

namespace Datatype

/-- The offsets of packed members, the first of which starts at `start`. -/
def offsetsFrom (start : Nat) : List (String × Datatype) → List Nat
  | [] => []
  | (_, type) :: rest => start :: offsetsFrom (start + type.size) rest

/-- The offset of every member of a compound. -/
def memberOffsets (type : Datatype) : List Nat := offsetsFrom 0 type.members

mutual

/-- The paths of the leaves of a member at a path: its own, unless it is a
compound or an array of compounds. -/
def leafPathsAt (path : String) : Datatype → List String
  | .compound members _ => leafPathsBelow path members
  | .array base _ _ => leafPathsAt path base
  | _ => [path]

/-- The paths of the leaves of members below a path, in declared order. -/
def leafPathsBelow (above : String) : List (String × Datatype) → List String
  | [] => []
  | (name, type) :: rest =>
    leafPathsAt (memberPath above name) type ++ leafPathsBelow above rest

end

/-- The paths of all leaves of a compound, none for other types. -/
def leafPaths (type : Datatype) : List String := leafPathsBelow "" type.members

end Datatype

end TypedAttr
