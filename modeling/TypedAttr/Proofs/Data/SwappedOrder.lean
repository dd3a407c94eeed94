import TypedAttr.Proofs.Data.Words
import TypedAttr.Proofs.Element.SwappedOrder
/-!
# Data in the other byte order

Packed elements, each with its slots turned round (`reverseElements`), are
read in the other order as the elements themselves are in their own, be it
one by one (`decodeElements_swapped`), at once (`ofPacked_swapped`) or as runs
of any length (`ofRuns_swapped`). Reading at once takes the order from
another node of the tree than decoding does, but the data it gives stand for
the decoded elements, and those are the same.
-/

namespace TypedAttr

/-- Slots are cut from as many items as they take up. -/
theorem slots_take {α : Type} (step count : Nat) (items : List α) :
    slots step count (items.take (count * step)) = slots step count items := by
  refine List.map_congr_left fun i hi => ?_
  have hfits := Nat.mul_le_mul_right step (List.mem_range.1 hi)
  rw [Nat.succ_mul] at hfits
  rw [List.drop_take, List.take_take, Nat.min_eq_left (by omega)]

namespace Datatype

variable {options : ElementOptions} {type : Datatype} {count : Nat} {packed : Bytes}

/-- The bytes of packed elements, each with its slots turned round. What is
left behind the last whole element stays. -/
def reverseElements (type : Datatype) (packed : Bytes) : Bytes :=
  (wholeChunks type.size packed).flatMap type.reverseSlots ++
    packed.drop (packed.length / type.size * type.size)

/-- Nothing is left behind packed elements. -/
theorem reverseElements_of_length (h : packed.length = count * type.size) :
    type.reverseElements packed =
      (slots type.size count packed).flatMap type.reverseSlots := by
  have hturned : ((slots type.size count packed).flatMap type.reverseSlots).length =
      packed.length := by
    rw [length_flatMap fun slot hslot => length_reverseSlots (length_of_mem_slots h hslot), h,
      slots, List.length_map, List.length_range]
  rw [reverseElements]
  rcases Nat.eq_zero_or_pos type.size with hsize | hsize
  · -- elements without bytes
    obtain rfl : packed = [] := List.eq_nil_of_length_eq_zero (by rw [h, hsize, Nat.mul_zero])
    rw [List.eq_nil_of_length_eq_zero hturned]
    simp [wholeChunks]
  · rw [wholeChunks_eq_slots hsize h, h, Nat.mul_div_cancel _ hsize, ← h, List.drop_length,
      List.append_nil]

theorem length_reverseElements (h : packed.length = count * type.size) :
    (type.reverseElements packed).length = count * type.size := by
  rw [reverseElements_of_length h,
    length_flatMap fun slot hslot => length_reverseSlots (length_of_mem_slots h hslot),
    slots, List.length_map, List.length_range]

/-- **Elements that are turned round** are decoded in the other order as
they are in their own. -/
theorem decodeElements_swapped (h : packed.length = count * type.size) :
    type.swapped.decodeElements options count (type.reverseElements packed) =
      type.decodeElements options count packed := by
  have hturned : (type.reverseElements packed).length = count * type.swapped.size := by
    rw [size_swapped, length_reverseElements h]
  rw [decodeElements_eq_map hturned, decodeElements_eq_map h, size_swapped,
    reverseElements_of_length h, slots_reverseSlots h, List.map_map]
  refine List.map_congr_left fun slot hslot => ?_
  exact decodeAt_swapped "" (length_of_mem_slots h hslot)

/-- What is left behind the elements is not decoded. -/
theorem decodeElements_append (h : packed.length = count * type.size) (rest : Bytes) :
    type.decodeElements options count (packed ++ rest) =
      type.decodeElements options count packed := by
  refine List.map_congr_left fun i hi => ?_
  have hfits := Nat.mul_le_mul_right type.size (List.mem_range.1 hi)
  rw [Nat.succ_mul] at hfits
  have hown : type.size ≤ (packed.drop (i * type.size)).length := by
    rw [List.length_drop]
    omega
  have hlong : (packed ++ rest).length = packed.length + rest.length := List.length_append
  rw [if_neg (by omega), if_neg (by omega), List.drop_append_of_le_length (by omega)]
  exact decodeAt_append hown rest

/-- **A run is decoded in the other order** as it is in its own, whatever is
left behind its last whole element. -/
theorem decodeElements_run_swapped (type : Datatype) (options : ElementOptions) (run : Bytes) :
    type.swapped.decodeElements options ((type.reverseElements run).length / type.swapped.size)
        (type.reverseElements run) =
      type.decodeElements options (run.length / type.size) run := by
  let count := run.length / type.size
  let front := run.take (count * type.size)
  let rest := run.drop (count * type.size)
  have hfront : front.length = count * type.size :=
    List.length_take_of_le (Nat.div_mul_le_self _ _)
  have hrun : front ++ rest = run := List.take_append_drop _ _
  have hturned : type.reverseElements run = type.reverseElements front ++ rest := by
    rw [reverseElements_of_length hfront, slots_take]
    rfl
  have hlength : (type.reverseElements run).length = run.length := by
    rw [hturned, List.length_append, length_reverseElements hfront, ← hfront, ← List.length_append,
      hrun]
  have hother : (type.reverseElements front).length = count * type.swapped.size := by
    rw [size_swapped, length_reverseElements hfront]
  rw [hlength, size_swapped, hturned, decodeElements_append hother, decodeElements_swapped hfront,
    ← decodeElements_append hfront rest, hrun]

end Datatype

namespace Data

variable {options : ElementOptions} {type : Datatype} {count : Nat} {packed : Bytes}

theorem isReadAsValues_swapped (type : Datatype) :
    type.swapped.isReadAsValues = type.isReadAsValues := by
  cases type with
  | array base extents traits =>
    rw [Datatype.swapped, Datatype.isReadAsValues, Datatype.isReadAsValues,
      Datatype.leafBase_swapped, Datatype.isWideFloat_swapped]
  | _ => rfl

/-- Data that are no texts stand for the same elements of the type in the
other order. -/
theorem Represents.swapped {elements : List Value} {data : Data}
    (h : Represents options packed type elements data) (htype : type.datatypeClass ≠ .text)
    (other : Bytes) : Represents options other type.swapped elements data := by
  cases h with
  | integers words hsize helements => exact .integers words hsize helements
  | floats patterns hformat helements => exact .floats patterns hformat helements
  | wideFloats patterns hwide hleaves =>
    refine .wideFloats patterns ?_ hleaves
    rwa [Datatype.leafBase_swapped, Datatype.isWideFloat_swapped]
  | addresses words helements => exact .addresses words helements
  | tokens items hflavor helements => exact .tokens items hflavor helements
  | texts | raw => exact absurd rfl htype
  | values hvalues => exact .values ((isReadAsValues_swapped type).trans hvalues)

/-- Texts have no order. -/
theorem reverseElements_text {size : Nat} {traits : Traits} (h : packed.length = count * size) :
    (Datatype.fixedText size traits).reverseElements packed = packed := by
  have hkept : (Datatype.fixedText size traits).reverseSlots = id := by
    funext slot
    rfl
  have hrest : packed.drop (packed.length / size * size) = [] := by
    have hwhole : size ∣ packed.length := ⟨count, h.trans (Nat.mul_comm count size)⟩
    rw [Nat.div_mul_cancel hwhole, List.drop_length]
  rw [Datatype.reverseElements, hkept, Datatype.size, hrest, List.append_nil, List.flatMap_id,
    flatten_wholeChunks h]

/-- **Data read at once in the other order** from elements that are turned
round are the data read from the elements. -/
theorem ofPacked_swapped (h : packed.length = count * type.size) :
    ofPacked type.swapped options count (type.reverseElements packed) =
      ofPacked type options count packed := by
  by_cases htext : type.datatypeClass = .text
  · cases type with
    | fixedText size traits =>
      have hkept : (Datatype.fixedText size traits).reverseElements packed = packed :=
        reverseElements_text h
      rw [hkept]
      rfl
    | varText traits => exact congrArg Data.values (Datatype.decodeElements_swapped h)
    | _ => cases htext
  · have hvar : type.isVarText = false := by
      cases type with
      | varText traits => exact absurd rfl htext
      | _ => rfl
    have hother : (type.reverseElements packed).length = count * type.swapped.size := by
      rw [Datatype.size_swapped, Datatype.length_reverseElements h]
    have hdata : Represents options (type.reverseElements packed) type.swapped
        (type.decodeElements options count packed) (ofPacked type options count packed) :=
      (represents_ofPacked hvar (absurd · htext) h).swapped htext _
    rw [← Datatype.decodeElements_swapped h] at hdata
    refine (hdata.eq_ofPacked (fun hclass => ?_) hother).symm
    exact absurd ((Datatype.datatypeClass_swapped type).symm.trans hclass) htext

/-- **And so are sequences**, run by run. -/
theorem ofRuns_swapped (base : Datatype) (options : ElementOptions) (runs : List Bytes) :
    ofRuns base.swapped options (runs.map base.reverseElements) = ofRuns base options runs := by
  rw [ofRuns, ofRuns, List.map_map]
  refine congrArg Data.values (List.map_congr_left fun run _ => ?_)
  exact congrArg Value.sequence (Datatype.decodeElements_run_swapped base options run)

end Data

end TypedAttr
