import TypedAttr.Dataspace
/-!
# Selections

Ranked data is shown as a rectangle of rows and columns. Data of up to two
axes is shown whole; of more, one frame is shown, and three chosen axes say
how many rows and columns it has and which frame it is.

`selectFrame` copies the frame out, column by column and row by row: element
`k` of frame `f` is element `f * width * height + k` of the whole. What the
whole does not have, or a word of 64 bits cannot count, is left as a fill. Of a
frame that is itself too large for a word to count, nothing is told
(`numSelected?`, `selectFrame?`).
-/

namespace TypedAttr

/-- Which part of ranked data is shown. -/
structure Selection where
  start : List Nat
  stride : List Nat
  count : List Nat
  rowAxis : Nat := 0
  columnAxis : Nat := 1
  frameAxis : Nat := 2
  deriving DecidableEq, Inhabited

namespace Selection

/-- All of the first two axes, and the first frame of the others. -/
def ofSpace (space : Dataspace) : Selection :=
  let extents := space.normalized.extents
  let rank := extents.length
  { start := List.replicate rank 0
    stride := List.replicate rank 1
    count := extents.take 2 ++ List.replicate (rank - 2) 1 }

/-- The count of axes. -/
def rank (selection : Selection) : Nat := selection.count.length

/-- The count along an axis, one past the rank. -/
def countAlong (selection : Selection) (axis : Nat) : Nat := selection.count.getD axis 1

/-- The count of rows. -/
def height (selection : Selection) : Nat := selection.countAlong selection.rowAxis

/-- The count of columns, one for data of a single axis. -/
def width (selection : Selection) : Nat :=
  if selection.rank < 2 then 1 else selection.countAlong selection.columnAxis

/-- The frame that is shown. -/
def frame (selection : Selection) : Nat := selection.start.getD selection.frameAxis 0

/-- Shows another frame, if there is a frame axis. -/
def setFrame (frame : Nat) (selection : Selection) : Selection :=
  { selection with start := selection.start.set selection.frameAxis frame }

/-- Chooses the row, column and frame axes. -/
def setAxes (row column frame : Nat) (selection : Selection) : Selection :=
  { selection with rowAxis := row, columnAxis := column, frameAxis := frame }

/-- The count of elements that are shown, if a word counts so far. -/
def numSelected? (selection : Selection) : Option Nat :=
  wordCount? <|
    if selection.rank > 2 then selection.height * selection.width else gridSize selection.count

end Selection

/-- Where element `k` of the frame that is shown starts, the elements being
`size` items each, if a word counts that far. -/
def Selection.elementStart? (selection : Selection) (size k : Nat) : Option Nat := do
  let columns ← wordCount? (selection.frame * selection.width)
  let before ← wordCount? (columns * selection.height)
  let element ← wordCount? (before + k)
  wordCount? (element * size)

/-- So many items of a list from `start` on, if it has them all. -/
def piece? {α : Type} (items : List α) (start count : Nat) : Option (List α) := do
  let stop ← wordCount? (start + count)
  if stop ≤ items.length then some ((items.drop start).take count) else none

/-- The items of element `k` of the frame that is shown, if they are there. -/
def Selection.element? {α : Type} (selection : Selection) (size : Nat) (items : List α) (k : Nat) :
    Option (List α) := do
  piece? items (← selection.elementStart? size k) size

/-- A list with a piece in the place of the items from `start` on. -/
def overwrite {α : Type} (start : Nat) (piece items : List α) : List α :=
  items.take start ++ piece ++ items.drop (start + piece.length)

/-- Copies element `k` of the frame into its place, if it is there. -/
def Selection.copyElement {α : Type} (selection : Selection) (size : Nat) (items : List α)
    (view : List α) (k : Nat) : List α :=
  match selection.element? size items k with
  | some piece => overwrite (k * size) piece view
  | none => view

/-- The frame that is shown of data whose elements are `group` items each.
A group of zero counts as one. How large a frame may be is left to
`selectFrame?`. -/
def selectFrame {α : Type} (items : List α) (group : Nat) (selection : Selection) (fill : α) :
    List α :=
  let size := max group 1
  let blank := List.replicate (selection.height * selection.width * size) fill
  (List.range selection.width).foldl (fun view column =>
    (List.range selection.height).foldl (fun view row =>
      selection.copyElement size items view (column * selection.height + row)) view) blank

/-- The frame that is shown, if a word counts the items in it. -/
def selectFrame? {α : Type} (items : List α) (group : Nat) (selection : Selection) (fill : α) :
    Option (List α) := do
  let _ ← wordCount? (selection.height * selection.width * max group 1)
  return selectFrame items group selection fill

end TypedAttr
