import TypedAttr.Proofs.Data.Frames
import TypedAttr.Proofs.Data.ReadForms
/-!
# Counts of elements in data

Data hold an element as one item, as its bytes, or as the wide floats that an
array of them is flattened to (`Data.groupOf`). Data that stand for elements
hold as many (`Represents.holdsElements`), so data read from packed bytes do,
with one exception: texts are cut out of the bytes, and from slots without
bytes none is cut (`ofPacked_of_losesTexts`).

What a selection announces and what it shows are counted apart. They are looked
at where words hold both (`Selection.IsCounted`), and agree beyond two axes
(`hasAnnounced_applySelection_iff`).
-/

namespace TypedAttr

namespace Datatype

variable {type : Datatype} {options : ElementOptions}

/-- Whether texts of the type are lost when they are read: those in slots
without bytes are. -/
def losesTexts (options : ElementOptions) : Datatype → Bool
  | .fixedText size _ => options.convertText && decide (size = 0)
  | _ => false

theorem losesTexts_iff :
    type.losesTexts options = true ↔
      options.convertText = true ∧ ∃ traits, type = .fixedText 0 traits := by
  cases type <;> simp [losesTexts]

end Datatype

/-- Packed bytes of whole words hold as many words. -/
theorem ByteOrder.length_readWords (order : ByteOrder) {width count : Nat} {packed : Bytes}
    (hwidth : 0 < width) (h : packed.length = count * width) :
    (order.readWords width packed).length = count := by
  rw [readWords, List.length_map, length_wholeChunks, h, Nat.mul_div_cancel _ hwidth]

namespace Data

variable {type : Datatype} {options : ElementOptions} {count : Nat} {packed : Bytes}

/-- Data of a type have the items of so many elements. -/
def HoldsElements (type : Datatype) (count : Nat) (data : Data) : Prop :=
  data.length = count * data.groupOf type

/-- Data of which every item is an element. -/
theorem holdsElements_of_single {data : Data} (hgroup : data.groupOf type = 1)
    (hlength : data.length = count) : data.HoldsElements type count := by
  rw [HoldsElements, hgroup, Nat.mul_one, hlength]

/-- **Data hold the elements that they stand for.** -/
theorem Represents.holdsElements {data : Data}
    (hdata : Represents options packed type (type.decodeElements options count packed) data)
    (h : packed.length = count * type.size) : data.HoldsElements type count := by
  have hcount := type.length_decodeElements options count packed
  generalize hread : type.decodeElements options count packed = elements at hdata hcount
  have hitems {α : Type} {items : List α} {element : α → Value}
      (helements : elements = items.map element) : items.length = count := by
    rw [← hcount, helements, List.length_map]
  cases hdata with
  | integers words hsize helements => exact holdsElements_of_single rfl (hitems helements)
  | @floats bytes traits format _ patterns hformat helements =>
    have hgroup : (Data.floats format patterns).groupOf (.float bytes traits) = 1 := by
      cases format <;> rfl
    exact holdsElements_of_single hgroup (hitems helements)
  | @wideFloats base extents traits _ patterns hwide hleaves =>
    -- the leaves of all elements are the words in all of their bytes
    have hwords := congrArg List.length hleaves
    rw [← hread, leavesOf_decodeElements (.array base extents traits) hwide h, List.length_map,
      List.length_map] at hwords
    have hsize : (Datatype.array base extents traits).size =
        (Datatype.array base extents traits).arrayLength * FloatFormat.quad.bytes :=
      Datatype.size_of_wideLeaf hwide
    rw [hsize, ← Nat.mul_assoc] at h
    exact hwords.symm.trans (ByteOrder.length_readWords _ (by decide) h)
  | addresses words helements => exact holdsElements_of_single rfl (hitems helements)
  | tokens items hflavor helements => exact holdsElements_of_single rfl (hitems helements)
  | texts items hconvert helements => exact holdsElements_of_single rfl (hitems helements)
  | raw huntold => exact h
  | values htype => exact holdsElements_of_single rfl hcount

/-- **Texts in slots without bytes are lost**: none is read, however many there
are. -/
theorem ofPacked_of_losesTexts (htype : type.losesTexts options = true)
    (h : packed.length = count * type.size) :
    ofPacked type options count packed = .texts [] := by
  obtain ⟨hconvert, traits, rfl⟩ := Datatype.losesTexts_iff.1 htype
  obtain rfl : packed = [] := List.eq_nil_of_length_eq_zero h
  have htexts : textsOfPacked? traits.padding 0 count [] = some [] := by
    rw [textsOfPacked?, wholeChunks]
    simp
  simp only [ofPacked, if_pos hconvert, htexts]

/-- **Data read from packed bytes hold all elements**, if none is lost. -/
theorem holdsElements_ofPacked (hvar : type.isVarText = false)
    (htype : type.losesTexts options = false) (h : packed.length = count * type.size) :
    (ofPacked type options count packed).HoldsElements type count := by
  by_cases htext : type.datatypeClass = .text → 0 < type.size
  · exact (represents_ofPacked hvar htext h).holdsElements h
  · -- texts without bytes that are not asked for are read as their bytes
    obtain ⟨hclass, hsize⟩ := Classical.not_imp.1 htext
    cases type with
    | fixedText size traits =>
      obtain rfl : size = 0 := Nat.eq_zero_of_not_pos hsize
      have hconvert : ¬options.convertText = true := by simpa [Datatype.losesTexts] using htype
      rw [ofPacked, if_neg hconvert]
      exact h
    | varText traits => cases hvar
    | _ => cases hclass

end Data

/-! ## Views -/

namespace Selection

variable {selection : Selection} {group : Nat}

/-- Words count what a selection shows of data whose elements are `group` items
each: the items of a frame, or the elements that are announced of data that are
shown whole. -/
def IsCounted (selection : Selection) (group : Nat) : Prop :=
  if 2 < selection.rank then selection.height * selection.width * max group 1 < UInt64.size
  else gridSize selection.count < UInt64.size

theorem isCounted_frame (hrank : 2 < selection.rank) :
    selection.IsCounted group ↔
      selection.height * selection.width * max group 1 < UInt64.size := by
  rw [IsCounted, if_pos hrank]

theorem isCounted_whole (hrank : ¬2 < selection.rank) :
    selection.IsCounted group ↔ gridSize selection.count < UInt64.size := by
  rw [IsCounted, if_neg hrank]

/-- Of a frame its rectangle is announced, which is not more than its items. -/
theorem numSelected?_frame (hrank : 2 < selection.rank) (h : selection.IsCounted group) :
    selection.numSelected? = some (selection.height * selection.width) := by
  have hrectangle : selection.height * selection.width < UInt64.size :=
    Nat.lt_of_le_of_lt (Nat.le_mul_of_pos_right _ (Nat.le_max_right group 1))
      ((isCounted_frame hrank).1 h)
  rw [numSelected?, if_pos hrank, wordCount?_of_lt hrectangle]

/-- Up to two axes the product of the counts is announced. -/
theorem numSelected?_whole (hrank : ¬2 < selection.rank) (h : selection.IsCounted group) :
    selection.numSelected? = some (gridSize selection.count) := by
  rw [numSelected?, if_neg hrank, wordCount?_of_lt ((isCounted_whole hrank).1 h)]

end Selection

namespace Data

variable {type : Datatype} {data : Data} {selection : Selection} {group : Nat}

/-- **A frame that a word counts is shown**, with all of its items, and they are
as those of the data. -/
theorem exists_select? (type : Datatype) (data : Data)
    (h : selection.height * selection.width * max group 1 < UInt64.size) :
    ∃ view, data.select? selection group = some view ∧
      view.length = selection.height * selection.width * max group 1 ∧
      view.groupOf type = data.groupOf type := by
  cases data with
  | floats format patterns =>
    rw [select?, selectFrame?_of_lt h]
    refine ⟨_, rfl, length_selectFrame, ?_⟩
    cases format <;> rfl
  | _ =>
    rw [select?, selectFrame?_of_lt h]
    exact ⟨_, rfl, length_selectFrame, rfl⟩

/-- A view has the items of the elements that its selection announces. A group
of zero counts as one. -/
def HasAnnounced (type : Datatype) (selection : Selection) (view : Data) : Prop :=
  ∃ announced, selection.numSelected? = some announced ∧
    view.length = announced * max (view.groupOf type) 1

/-- **Of more than two axes a view is as large as announced**, and up to two if
the data are, which are shown whole there. -/
theorem hasAnnounced_applySelection_iff (h : selection.IsCounted (data.groupOf type)) :
    ∃ view, data.applySelection type selection = some view ∧
      (view.HasAnnounced type selection ↔
        2 < selection.rank ∨
          data.length = gridSize selection.count * max (data.groupOf type) 1) := by
  rw [applySelection]
  by_cases hrank : 2 < selection.rank
  · obtain ⟨view, hview, hlength, hgroup⟩ :=
      exists_select? type data ((Selection.isCounted_frame hrank).1 h)
    rw [if_neg (Nat.not_le_of_lt hrank)]
    refine ⟨view, hview, fun _ => .inl hrank, fun _ => ?_⟩
    exact ⟨_, Selection.numSelected?_frame hrank h, hgroup ▸ hlength⟩
  · rw [if_pos (Nat.le_of_not_lt hrank)]
    refine ⟨data, rfl, ?_, fun hcounts => ?_⟩
    · rintro ⟨announced, hannounced, hlength⟩
      rw [Selection.numSelected?_whole hrank h] at hannounced
      cases hannounced
      exact .inr hlength
    · exact ⟨_, Selection.numSelected?_whole hrank h, hcounts.resolve_left hrank⟩

end Data

end TypedAttr
