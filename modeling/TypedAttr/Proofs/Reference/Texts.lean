import TypedAttr.Proofs.Data.ReadForms
import TypedAttr.Reference.Resolve
/-!
# Texts in a record

The name of a file is the last part of its path (`isLastPart_lastSegment`).
The text of a region is cut out of a flat list of coordinates, and as long as
every tuple has one coordinate per dimension, it shows the tuples that the
list was made of.
-/

namespace TypedAttr

/-! ## Paths -/

/-- A text is what follows the last stroke of a path, or all of a path without
strokes. -/
def IsLastPart (part path : String) : Prop :=
  '/' ∉ part.toList ∧ (path = part ∨ ∃ front, path = front ++ "/" ++ part)

theorem isLastPart_lastSegment (path : String) : IsLastPart (lastSegment path) path := by
  have hpart : (lastSegment path).toList = (path.toList.reverse.takeWhile (· != '/')).reverse :=
    String.toList_ofList
  have hsplit := @List.takeWhile_append_dropWhile _ (· != '/') path.toList.reverse
  constructor
  · intro hmem
    rw [hpart, List.mem_reverse] at hmem
    exact absurd (List.all_eq_true.1 List.all_takeWhile '/' hmem) (by decide)
  · -- what comes before the last part, if there is anything, ends in a stroke
    cases hfront : path.toList.reverse.dropWhile (· != '/') with
    | nil =>
      left
      rw [hfront, List.append_nil] at hsplit
      rw [lastSegment, hsplit, List.reverse_reverse, String.ofList_toList]
    | cons stroke front =>
      right
      have hstroke : stroke = '/' := by
        have hhead := List.head?_dropWhile_not (· != '/') path.toList.reverse
        rw [hfront] at hhead
        simpa using hhead
      refine ⟨String.ofList front.reverse, ?_⟩
      rw [hfront, hstroke] at hsplit
      have hpath := congrArg List.reverse hsplit
      rw [List.reverse_reverse, List.reverse_append, List.reverse_cons, ← hpart] at hpath
      apply String.toList_injective
      rw [String.toList_append, String.toList_append, String.toList_ofList]
      exact hpath.symm

/-! ## Regions -/

namespace Region

variable {rank : Nat}

/-- **Points** of the right rank are shown one after the other. -/
theorem pointsText_flatten (hrank : 0 < rank) {points : List (List Nat)}
    (h : ∀ point ∈ points, point.length = rank) :
    pointsText rank points.flatten = braced (points.map tuple) := by
  rw [pointsText, wholeChunks_flatten hrank h]

/-- **So are blocks**, each by its two corners. -/
theorem blocksText_flatMap (hrank : 0 < rank) {blocks : List (List Nat × List Nat)}
    (h : ∀ corners ∈ blocks, corners.1.length = rank ∧ corners.2.length = rank) :
    blocksText rank (blocks.flatMap fun (low, high) => low ++ high) =
      braced (blocks.map fun (low, high) => tuple low ++ "-" ++ tuple high) := by
  have hjoined : ∀ piece ∈ blocks.map (fun (low, high) => low ++ high),
      piece.length = 2 * rank := by
    intro piece hmem
    obtain ⟨corners, hcorners, rfl⟩ := List.mem_map.1 hmem
    obtain ⟨hlow, hhigh⟩ := h corners hcorners
    rw [List.length_append, hlow, hhigh, Nat.two_mul]
  rw [blocksText, List.flatMap_def, wholeChunks_flatten (by omega) hjoined, List.map_map]
  congr 1
  refine List.map_congr_left fun corners hcorners => ?_
  obtain ⟨hlow, -⟩ := h corners hcorners
  simp only [Function.comp_apply, block, List.take_left' hlow, List.drop_left' hlow]

end Region

end TypedAttr
