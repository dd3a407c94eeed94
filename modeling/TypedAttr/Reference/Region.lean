import TypedAttr.Bytes.Chunks
import TypedAttr.Dataspace
/-!
# Regions as text

A region of a dataset is a list of points, or of blocks given by their two
corners. Either comes as a flat list of coordinates, cut into tuples by the
rank of the dataset; what is left over is dropped. The rank is the count of
axes of a dataset that is there, or any word that a caller gives: of that,
the double has to be a word, too (`blocksText?`).
-/

namespace TypedAttr

namespace Region

/-- The text of one tuple of coordinates. -/
def tuple (coordinates : List Nat) : String :=
  "(" ++ ",".intercalate (coordinates.map toString) ++ ")"

/-- The text of one block, its two corners. -/
def block (rank : Nat) (coordinates : List Nat) : String :=
  tuple (coordinates.take rank) ++ "-" ++ tuple (coordinates.drop rank)

/-- Texts between braces, with a space around each. -/
def braced (items : List String) : String :=
  "\x7b " ++ " ".intercalate items ++ " \x7d"

/-- The text of points, such as `(1,2) (3,4)` between braces. -/
def pointsText (rank : Nat) (coordinates : List Nat) : String :=
  braced ((wholeChunks rank coordinates).map tuple)

/-- The text of blocks, such as `(0,0)-(1,1)` between braces. The double of the
rank is taken to be a word. -/
def blocksText (rank : Nat) (coordinates : List Nat) : String :=
  braced ((wholeChunks (2 * rank) coordinates).map (block rank))

/-- The text of blocks of any rank, if a word counts the coordinates of one. -/
def blocksText? (rank : Nat) (coordinates : List Nat) : Option String := do
  let _ ← wordCount? (2 * rank)
  return blocksText rank coordinates

end Region

end TypedAttr
