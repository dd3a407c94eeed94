/-!
# Dataspaces

The shape of an attribute's elements: one extent per axis, the slowest
varying first. A scalar space has no axis and one element; an axis of
extent zero makes a space empty. Counts that a caller can choose may be larger
than a word, and are looked at first (`wordCount?`).
-/

namespace TypedAttr

/-- The count of places in a grid: the product of its extents, one if there
are none. -/
def gridSize : List Nat → Nat
  | [] => 1
  | extent :: rest => extent * gridSize rest

/-- A count, if a word of 64 bits holds it. -/
def wordCount? (n : Nat) : Option Nat := if n < UInt64.size then some n else none

theorem wordCount?_eq_some {n m : Nat} : wordCount? n = some m ↔ n < UInt64.size ∧ n = m := by
  simp [wordCount?]

theorem wordCount?_of_lt {n : Nat} (h : n < UInt64.size) : wordCount? n = some n :=
  if_pos h

/-- The extents of an attribute, one per axis. -/
structure Dataspace where
  extents : List Nat
  deriving DecidableEq, Inhabited

namespace Dataspace

/-- The space of a single element, without axes. -/
def scalar : Dataspace := ⟨[]⟩

/-- A space of one axis. -/
def line (extent : Nat) : Dataspace := ⟨[extent]⟩

/-- A space of two axes. -/
def plane (rows columns : Nat) : Dataspace := ⟨[rows, columns]⟩

/-- The count of axes. -/
def rank (space : Dataspace) : Nat := space.extents.length

/-- The extent along an axis, none past the rank. -/
def extent? (space : Dataspace) (axis : Nat) : Option Nat := space.extents[axis]?

/-- The count of elements: one for a scalar space. -/
def numElements (space : Dataspace) : Nat := gridSize space.extents

/-- Whether the space has no axes. -/
def isScalar (space : Dataspace) : Bool := space.extents.isEmpty

/-- A scalar space as a line of one element; any other space itself. -/
def normalized (space : Dataspace) : Dataspace :=
  if space.isScalar then line 1 else space

/-- Text such as `[2 x 3]`, or `scalar`. -/
def render (space : Dataspace) : String :=
  if space.isScalar then "scalar"
  else "[" ++ " x ".intercalate (space.extents.map toString) ++ "]"

/-- Normalizing keeps the count of elements. -/
theorem numElements_normalized (space : Dataspace) :
    space.normalized.numElements = space.numElements := by
  cases space with
  | mk extents => cases extents <;> simp [normalized, isScalar, line, numElements, gridSize]

end Dataspace

end TypedAttr
