import TypedAttr.Datatype.Basic
/-!
# Datatypes as text

A datatype is shown in one line, from the outside in.
-/

namespace TypedAttr

namespace Datatype

mutual

/-- The line that shows a datatype. -/
def render : Datatype → String
  | .integer size signed _ =>
    s!"{size * 8}-bit " ++ (if signed then "" else "unsigned ") ++ "integer"
  | .float size _ => s!"{size * 8}-bit floating-point"
  | .fixedText size _ => s!"String, length = {size}"
  | .varText _ => "String, length = variable"
  | .bitfield size _ => s!"{size * 8}-bit bitfield"
  | .blob size _ => s!"{size}-byte opaque"
  | .time _ _ => "time"
  | .noClass _ => "no class"
  | .compound members _ => "Compound \x7b" ++ ", ".intercalate (memberTexts members) ++ "\x7d"
  | .array base extents _ =>
    "Array [" ++ "x".intercalate (extents.map toString) ++ "] of " ++ base.render
  | .sequence base _ => "Variable-length of " ++ base.render
  | .enumeration base values _ =>
    s!"{base.size * 8}-bit enum (" ++
      ", ".intercalate (values.map fun named => s!"{named.1}={named.2}") ++ ")"
  | .reference .object _ => "Object reference"
  | .reference .region _ => "Dataset region reference"
  | .reference .standard _ => "Standard reference"

/-- One text per member, its name first. -/
def memberTexts : List (String × Datatype) → List String
  | [] => []
  | (name, type) :: rest => (name ++ ": " ++ type.render) :: memberTexts rest

end

end Datatype

/-- The name of a flavor. -/
def ReferenceFlavor.name : ReferenceFlavor → String
  | .object => "object"
  | .region => "region"
  | .standard => "standard"

end TypedAttr
