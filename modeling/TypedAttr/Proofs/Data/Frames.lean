import Mathlib.Data.List.Basic
import TypedAttr.Data.Basic
import TypedAttr.Proofs.Data.Words
import TypedAttr.Proofs.Datatype.Packing
/-!
# Frames of ranked data

A frame is copied column by column and row by row, each element to where it
goes in the view. Counted through, the copies are one run over the elements
(`foldl_grid`), of which every step turns one more element of fill into the
element that is shown there (`copyElement_append`); so a view is its elements,
one behind the other (`selectFrame_eq_flatMap`), and these are a window of the
whole (`selectFrame_isWindow`).
-/

namespace TypedAttr

variable {α : Type}

namespace Selection

variable {selection : Selection} {items : List α} {size k : Nat}

/-! ## Counting in words -/

/-- The number of element `k` of the frame that is shown, in the whole. -/
def numberInWhole (selection : Selection) (k : Nat) : Nat :=
  selection.frame * (selection.height * selection.width) + k

/-- **The start of an element is counted** if a word holds it: no count on the
way to it is larger. -/
theorem elementStart?_eq (hsize : 0 < size) (hk : k < selection.height * selection.width) :
    selection.elementStart? size k = wordCount? (selection.numberInWhole k * size) := by
  have hheight : 0 < selection.height := Nat.pos_of_mul_pos_right (Nat.zero_lt_of_lt hk)
  have hbefore : selection.frame * selection.width * selection.height =
      selection.frame * (selection.height * selection.width) := by
    rw [Nat.mul_assoc, Nat.mul_comm selection.width]
  apply Option.ext
  intro start
  simp only [elementStart?, Option.bind_eq_bind, Option.bind_eq_some_iff, wordCount?_eq_some]
  constructor
  · rintro ⟨_, ⟨-, rfl⟩, _, ⟨-, rfl⟩, _, ⟨-, rfl⟩, hstart⟩
    rwa [hbefore] at hstart
  · rintro ⟨hfits, rfl⟩
    have helement : selection.numberInWhole k ≤ selection.numberInWhole k * size :=
      Nat.le_mul_of_pos_right _ hsize
    have hcolumns : selection.frame * selection.width ≤
        selection.frame * selection.width * selection.height := Nat.le_mul_of_pos_right _ hheight
    rw [hbefore] at hcolumns
    unfold numberInWhole at helement hfits
    refine ⟨_, ⟨by omega, rfl⟩, _, ⟨by omega, rfl⟩, _, ⟨by omega, rfl⟩, ?_⟩
    rw [hbefore]
    exact ⟨hfits, rfl⟩

/-- **An element is there** if the whole has all of its items. -/
theorem element?_eq (hitems : items.length < UInt64.size) (hsize : 0 < size)
    (hk : k < selection.height * selection.width) :
    selection.element? size items k =
      if (selection.numberInWhole k + 1) * size ≤ items.length then
        some ((items.drop (selection.numberInWhole k * size)).take size)
      else none := by
  rw [element?, elementStart?_eq hsize hk, Nat.succ_mul]
  by_cases hstart : selection.numberInWhole k * size < UInt64.size
  · rw [wordCount?_of_lt hstart, Option.bind_eq_bind, Option.bind_some, piece?]
    by_cases hstop : selection.numberInWhole k * size + size < UInt64.size
    · rw [wordCount?_of_lt hstop, Option.bind_eq_bind, Option.bind_some]
    · rw [wordCount?, if_neg hstop, if_neg (by omega)]
      rfl
  · rw [wordCount?, if_neg hstart, if_neg (by omega)]
    rfl

/-- An element has so many items. -/
theorem length_of_element? {piece : List α} (h : selection.element? size items k = some piece) :
    piece.length = size := by
  obtain ⟨start, -, hpiece⟩ := Option.bind_eq_some_iff.1 h
  obtain ⟨stop, hstop, hinside⟩ := Option.bind_eq_some_iff.1 hpiece
  obtain ⟨hfits, hpiece⟩ := Option.ite_none_right_eq_some.1 hinside
  obtain ⟨-, rfl⟩ := wordCount?_eq_some.1 hstop
  obtain rfl := Option.some.inj hpiece
  rw [List.length_take, List.length_drop]
  omega

/-! ## Copies -/

/-- What a view has in the place of element `k`: the element, or a fill. -/
def shown (selection : Selection) (size : Nat) (items : List α) (fill : α) (k : Nat) : List α :=
  (selection.element? size items k).getD (List.replicate size fill)

variable {fill : α}

/-- The element is there if the whole has all of its items. -/
theorem shown_eq (hitems : items.length < UInt64.size) (hsize : 0 < size)
    (hk : k < selection.height * selection.width) :
    selection.shown size items fill k =
      if (selection.numberInWhole k + 1) * size ≤ items.length then
        (items.drop (selection.numberInWhole k * size)).take size
      else List.replicate size fill := by
  rw [shown, element?_eq hitems hsize hk]
  split <;> rfl

@[simp] theorem length_shown : (selection.shown size items fill k).length = size := by
  unfold shown
  cases h : selection.element? size items k with
  | none => exact List.length_replicate
  | some piece => exact length_of_element? h

end Selection

/-- A piece takes the place of one of its length. -/
theorem overwrite_append {front old piece : List α} (h : old.length = piece.length)
    (back : List α) :
    overwrite front.length piece (front ++ (old ++ back)) = front ++ (piece ++ back) := by
  rw [overwrite, List.take_left, ← List.drop_drop, List.drop_left, ← h, List.drop_left,
    List.append_assoc]

namespace Selection

variable {selection : Selection} {items front : List α} {size k : Nat} {fill : α}

/-- **A copy** turns the fill in its place into what is shown there. -/
theorem copyElement_append (hfront : front.length = k * size) (back : List α) :
    selection.copyElement size items (front ++ (List.replicate size fill ++ back)) k =
      front ++ (selection.shown size items fill k ++ back) := by
  rw [copyElement, shown]
  cases h : selection.element? size items k with
  | none => rfl
  | some piece =>
    have hlength : (List.replicate size fill).length = piece.length := by
      rw [List.length_replicate, length_of_element? h]
    rw [← hfront]
    exact overwrite_append hlength back

/-- **After some copies** the view has so many elements, and fills behind
them. -/
theorem foldl_copyElement {count total : Nat} (h : count ≤ total) :
    (List.range count).foldl (selection.copyElement size items)
        (List.replicate (total * size) fill) =
      (List.range count).flatMap (selection.shown size items fill) ++
        List.replicate ((total - count) * size) fill := by
  induction count with
  | zero => rfl
  | succ count ih =>
    -- the fills that are left are those of this element and those behind it
    have hfills : List.replicate ((total - count) * size) fill =
        List.replicate size fill ++ List.replicate ((total - (count + 1)) * size) fill := by
      obtain ⟨left, rfl⟩ : ∃ left, total = count + 1 + left := ⟨_, (Nat.add_sub_cancel' h).symm⟩
      rw [List.replicate_append_replicate, Nat.add_assoc, Nat.add_sub_cancel_left,
        ← Nat.add_assoc, Nat.add_sub_cancel_left, Nat.add_mul, Nat.one_mul]
    have hdone : ((List.range count).flatMap (selection.shown size items fill)).length =
        count * size := by
      rw [length_flatMap fun k _ => length_shown, List.length_range]
    rw [List.range_succ, List.foldl_append, ih (Nat.le_of_succ_le h), List.foldl_cons,
      List.foldl_nil, hfills, copyElement_append hdone, List.flatMap_append,
      List.flatMap_singleton, List.append_assoc]

end Selection

/-- A loop over rows in one over columns is a loop over the elements, counted
through. -/
theorem foldl_grid {β : Type} (f : β → Nat → β) (columns rows : Nat) (init : β) :
    (List.range columns).foldl
        (fun b column => (List.range rows).foldl (fun b row => f b (column * rows + row)) b) init =
      (List.range (columns * rows)).foldl f init := by
  rw [← flatMap_range_add, List.foldl_flatMap]
  simp only [List.foldl_map]

variable {items : List α} {group k : Nat} {selection : Selection} {fill : α}

/-- **A view is its elements**, one behind the other. -/
theorem selectFrame_eq_flatMap :
    selectFrame items group selection fill =
      (List.range (selection.height * selection.width)).flatMap
        (selection.shown (max group 1) items fill) := by
  rw [selectFrame, foldl_grid, Nat.mul_comm selection.width,
    Selection.foldl_copyElement (Nat.le_refl _), Nat.sub_self, Nat.zero_mul, List.replicate_zero,
    List.append_nil]

/-- So its length is that of all of them, whatever the data. -/
theorem length_selectFrame :
    (selectFrame items group selection fill).length =
      selection.height * selection.width * max group 1 := by
  rw [selectFrame_eq_flatMap, length_flatMap fun k _ => Selection.length_shown, List.length_range]

/-- A view that a word counts is shown. -/
theorem selectFrame?_of_lt
    (h : selection.height * selection.width * max group 1 < UInt64.size) :
    selectFrame? items group selection fill = some (selectFrame items group selection fill) := by
  rw [selectFrame?, wordCount?_of_lt h]
  rfl

/-! ## Windows -/

/-- What a view has in the place of an element, out of data that words can
count. -/
theorem take_drop_selectFrame (hitems : items.length < UInt64.size)
    (hk : k < selection.height * selection.width) :
    ((selectFrame items group selection fill).drop (k * max group 1)).take (max group 1) =
      if (selection.numberInWhole k + 1) * max group 1 ≤ items.length then
        (items.drop (selection.numberInWhole k * max group 1)).take (max group 1)
      else List.replicate (max group 1) fill := by
  have hrange : k < (List.range (selection.height * selection.width)).length := by
    rwa [List.length_range]
  rw [selectFrame_eq_flatMap, take_drop_flatMap (fun k _ => Selection.length_shown) hrange,
    List.getElem_range, Selection.shown_eq hitems (Nat.le_max_right group 1) hk]

/-- A frame that the whole has is the elements of its numbers. -/
theorem selectFrame_of_inside (hitems : items.length < UInt64.size)
    (hinside : (selection.frame + 1) * (selection.height * selection.width) * max group 1 ≤
      items.length) :
    selectFrame items group selection fill =
      ((List.range (selection.height * selection.width)).map selection.numberInWhole).flatMap
        fun number => (items.drop (number * max group 1)).take (max group 1) := by
  rw [selectFrame_eq_flatMap, List.flatMap_map]
  refine List.flatMap_congr fun k hk => ?_
  have hk := List.mem_range.1 hk
  have hlast : selection.numberInWhole k + 1 ≤
      (selection.frame + 1) * (selection.height * selection.width) := by
    rw [Nat.succ_mul]
    exact Nat.add_le_add_left hk _
  rw [Selection.shown_eq hitems (Nat.le_max_right group 1) hk,
    if_pos (Nat.le_trans (Nat.mul_le_mul_right _ hlast) hinside)]

/-- The elements of whole data, one behind the other, are the data. -/
theorem flatMap_elements {size count : Nat} (hsize : 0 < size)
    (h : items.length = count * size) :
    ((List.range count).flatMap fun number => (items.drop (number * size)).take size) = items :=
  calc ((List.range count).flatMap fun number => (items.drop (number * size)).take size)
      = (slots size count items).flatten := rfl
    _ = (wholeChunks size items).flatten := by rw [wholeChunks_eq_slots hsize h]
    _ = items := flatten_wholeChunks h

/-- **The frames of whole data**, one behind the other, are the data. -/
theorem flatMap_selectFrame {height width frameCount : Nat} {frames : Nat → Selection}
    (hitems : items.length < UInt64.size)
    (hframes : ∀ f < frameCount,
      (frames f).height = height ∧ (frames f).width = width ∧ (frames f).frame = f)
    (hwhole : items.length = frameCount * (height * width) * max group 1) :
    (List.range frameCount).flatMap (fun f => selectFrame items group (frames f) fill) =
      items := by
  have hframe : ∀ f ∈ List.range frameCount, selectFrame items group (frames f) fill =
      ((List.range (height * width)).map (f * (height * width) + ·)).flatMap fun number =>
        (items.drop (number * max group 1)).take (max group 1) := by
    intro f hf
    have hf := List.mem_range.1 hf
    obtain ⟨hheight, hwidth, hnumber⟩ := hframes f hf
    have hnumbers : (frames f).numberInWhole = (f * (height * width) + ·) := by
      funext k
      rw [Selection.numberInWhole, hheight, hwidth, hnumber]
    have hinside : ((frames f).frame + 1) * ((frames f).height * (frames f).width) * max group 1 ≤
        items.length := by
      rw [hheight, hwidth, hnumber, hwhole]
      exact Nat.mul_le_mul_right _ (Nat.mul_le_mul_right _ hf)
    rw [selectFrame_of_inside hitems hinside, hnumbers, hheight, hwidth]
  calc (List.range frameCount).flatMap (fun f => selectFrame items group (frames f) fill)
      = (List.range (frameCount * (height * width))).flatMap fun number =>
          (items.drop (number * max group 1)).take (max group 1) := by
        rw [List.flatMap_congr hframe, ← List.flatMap_assoc, flatMap_range_add]
    _ = items := flatMap_elements (Nat.le_max_right group 1) hwhole

/-- **A view is a window of whole elements**, over data that words can count.
It has as many elements as its rectangle, each of `max group 1` items, and each
is the element of its number in the whole, or fills where the whole does not
have all of that. So the frames of whole data are the data: no item is lost,
repeated or moved. -/
theorem selectFrame_isWindow (items : List α) (hitems : items.length < UInt64.size) (group : Nat)
    (fill : α) :
    (∀ selection : Selection,
      (selectFrame items group selection fill).length =
          selection.height * selection.width * max group 1 ∧
        ∀ k < selection.height * selection.width,
          ((selectFrame items group selection fill).drop (k * max group 1)).take (max group 1) =
            if (selection.numberInWhole k + 1) * max group 1 ≤ items.length then
              (items.drop (selection.numberInWhole k * max group 1)).take (max group 1)
            else List.replicate (max group 1) fill) ∧
      ∀ (height width frameCount : Nat) (frames : Nat → Selection),
        (∀ f < frameCount,
          (frames f).height = height ∧ (frames f).width = width ∧ (frames f).frame = f) →
        items.length = frameCount * (height * width) * max group 1 →
        (List.range frameCount).flatMap (fun f => selectFrame items group (frames f) fill) =
          items :=
  ⟨fun _ => ⟨length_selectFrame, fun _ hk => take_drop_selectFrame hitems hk⟩,
    fun _ _ _ _ hframes hwhole => flatMap_selectFrame hitems hframes hwhole⟩

/-- Four frames of two rows and three columns, of elements of two items. -/
theorem selectFrame_isWindow_cube :
    let frames := fun f => (Selection.ofSpace ⟨[2, 3, 4]⟩).setFrame f
    (List.range 48).length < UInt64.size ∧
      (∀ f < 4, (frames f).height = 2 ∧ (frames f).width = 3 ∧ (frames f).frame = f) ∧
      (List.range 48).length = 4 * (2 * 3) * max 2 1 ∧
      (List.range 4).flatMap (fun f => selectFrame (List.range 48) 2 (frames f) 0) =
        List.range 48 := by
  intro frames
  have hframes : ∀ f < 4,
      (frames f).height = 2 ∧ (frames f).width = 3 ∧ (frames f).frame = f := by
    decide
  have hitems : (List.range 48).length < UInt64.size := by decide
  exact ⟨hitems, hframes, by decide,
    (selectFrame_isWindow (List.range 48) hitems 2 0).2 2 3 4 frames hframes (by decide)⟩

end TypedAttr
