import TypedAttr.Proofs.Element.Mirroring
import TypedAttr.Proofs.Element.Resaving
/-!
# Elements in the other byte order

A datatype in the other byte order (`swapped`) has the same layout, and every
number in it lies in its slot the other way round. `reverseSlots` turns these
slots round and leaves all other bytes as they are; what it makes of an element
is read in the other order as the element is in its own
(`decodeAt_swapped`).
-/

namespace TypedAttr

/-! ## Words -/

namespace ByteOrder

/-- The other byte order. An unspecified one counts as little. -/
def swapped : ByteOrder → ByteOrder
  | .big => .little
  | .little => .big
  | .unspecified => .big

theorem arrange_swapped_reverse (order : ByteOrder) (word : Bytes) :
    order.swapped.arrange word.reverse = order.arrange word := by
  cases order with
  | big => rfl
  | little | unspecified => exact List.reverse_reverse word

theorem arrange_swapped (order : ByteOrder) (word : Bytes) :
    order.swapped.arrange word = (order.arrange word).reverse := by
  cases order with
  | big => exact (List.reverse_reverse word).symm
  | little | unspecified => rfl

/-- **A slot that is turned round** holds the same word in the other order. -/
theorem readWord_swapped (order : ByteOrder) (width : Nat) (slot : Bytes) :
    order.swapped.readWord width slot.reverse = order.readWord width slot := by
  rw [readWord, readWord, read, read, arrange_swapped_reverse]

/-- **A word is written in the other order** into the same slot, turned
round. -/
theorem writeWord_swapped (order : ByteOrder) {width : Nat} (word : BitVec (8 * width)) :
    order.swapped.writeWord word = (order.writeWord word).reverse := by
  rw [writeWord, writeWord, write, write, arrange_swapped]

end ByteOrder

/-- The traits of a node in the other byte order. -/
def Traits.swapped (traits : Traits) : Traits := { traits with order := traits.order.swapped }

namespace Datatype

/-! ## Trees in the other order -/

mutual

/-- The same layout, with every node in the other byte order. -/
def swapped : Datatype → Datatype
  | .integer size signed traits => .integer size signed traits.swapped
  | .float size traits => .float size traits.swapped
  | .fixedText size traits => .fixedText size traits.swapped
  | .varText traits => .varText traits.swapped
  | .bitfield size traits => .bitfield size traits.swapped
  | .blob size traits => .blob size traits.swapped
  | .time size traits => .time size traits.swapped
  | .noClass traits => .noClass traits.swapped
  | .compound members traits => .compound (swappedMembers members) traits.swapped
  | .array base extents traits => .array base.swapped extents traits.swapped
  | .sequence base traits => .sequence base.swapped traits.swapped
  | .enumeration base values traits => .enumeration base.swapped values traits.swapped
  | .reference flavor traits => .reference flavor traits.swapped

/-- The same members in the other byte order. -/
def swappedMembers : List (String × Datatype) → List (String × Datatype)
  | [] => []
  | (name, type) :: rest => (name, type.swapped) :: swappedMembers rest

end

/-- A slot turned round if it is of one of some sizes. -/
def reverseSized (sizes : List Nat) (slot : Bytes) : Bytes :=
  if slot.length ∈ sizes then slot.reverse else slot

mutual

/-- The bytes of an element with every slot of a number turned round: integers
and enumerated values of 1, 2, 4 and 8 bytes, floats of 2, 4, 8 and 16, and
references of 8. -/
def reverseSlots : Datatype → Bytes → Bytes
  | .integer .., slot => reverseSized [1, 2, 4, 8] slot
  | .float .., slot => reverseSized [2, 4, 8, 16] slot
  | .enumeration .., slot => reverseSized [1, 2, 4, 8] slot
  | .reference .., slot => reverseSized [8] slot
  | .fixedText .., slot | .varText .., slot | .bitfield .., slot | .blob .., slot | .time .., slot
  | .noClass .., slot | .sequence .., slot => slot
  | .compound members _, slot => reverseMembers members slot
  | .array base extents _, slot =>
    (slots base.size (gridSize extents) slot).flatMap base.reverseSlots

/-- The same for packed members, one behind the other. -/
def reverseMembers : List (String × Datatype) → Bytes → Bytes
  | [], _ => []
  | (_, type) :: rest, slot =>
    type.reverseSlots (slot.take type.size) ++ reverseMembers rest (slot.drop type.size)

end

variable {type : Datatype} {members : List (String × Datatype)} {slot : Bytes}

/-! ## What stays the same -/

@[simp] theorem size_swapped (type : Datatype) : type.swapped.size = type.size := by
  induction type with
  | compound members traits ih =>
    rw [swapped, size, size]
    induction members with
    | nil => rfl
    | cons member rest ihrest =>
      rw [swappedMembers, sizeOfMembers, sizeOfMembers, ih member List.mem_cons_self,
        ihrest fun other hother => ih other (List.mem_cons_of_mem _ hother)]
  | array base extents traits ih => rw [swapped, size, size, ih]
  | enumeration base values traits ih => rw [swapped, size, size, ih]
  | _ => rfl

theorem sizeOfMembers_swapped (members : List (String × Datatype)) :
    sizeOfMembers (swappedMembers members) = sizeOfMembers members :=
  size_swapped (.compound members {})

@[simp] theorem isSigned_swapped (type : Datatype) : type.swapped.isSigned = type.isSigned := by
  induction type with
  | enumeration base values traits ih => exact ih
  | _ => rfl

@[simp] theorem datatypeClass_swapped (type : Datatype) :
    type.swapped.datatypeClass = type.datatypeClass := by
  cases type <;> rfl

@[simp] theorem order_swapped (type : Datatype) : type.swapped.order = type.order.swapped := by
  cases type <;> rfl

@[simp] theorem leafBase_swapped (type : Datatype) :
    type.swapped.leafBase = type.leafBase.swapped := by
  induction type with
  | array base extents traits ih => exact ih
  | _ => rfl

@[simp] theorem isCompound_swapped (type : Datatype) :
    type.swapped.isCompound = type.isCompound := by
  cases type <;> rfl

@[simp] theorem isWideFloat_swapped (type : Datatype) :
    type.swapped.isWideFloat = type.isWideFloat := by
  cases type <;> rfl

/-- The same members take part. -/
@[simp] theorem takesPart_swapped (options : ElementOptions) (path : String) (type : Datatype) :
    takesPart options path type.swapped = takesPart options path type := by
  rw [takesPart, takesPart, leafBase_swapped, isCompound_swapped]

/-! ## Bytes that are turned round -/

@[simp] theorem length_reverseSized (sizes : List Nat) (slot : Bytes) :
    (reverseSized sizes slot).length = slot.length := by
  rw [reverseSized]
  split
  · exact List.length_reverse
  · rfl

/-- Packed members are the bytes of the first and those of the others. -/
theorem length_of_members {name : String} {rest : List (String × Datatype)}
    (h : slot.length = sizeOfMembers ((name, type) :: rest)) :
    (slot.take type.size).length = type.size ∧
      (slot.drop type.size).length = sizeOfMembers rest := by
  rw [sizeOfMembers] at h
  rw [List.length_take, List.length_drop]
  omega

theorem length_reverseMembers
    (hmembers : ∀ member ∈ members, ∀ slot : Bytes, slot.length = member.2.size →
      (member.2.reverseSlots slot).length = member.2.size)
    (h : slot.length = sizeOfMembers members) :
    (reverseMembers members slot).length = sizeOfMembers members := by
  induction members generalizing slot with
  | nil => rfl
  | cons member rest ih =>
    obtain ⟨name, type⟩ := member
    obtain ⟨hown, hlater⟩ := length_of_members h
    rw [reverseMembers, List.length_append, sizeOfMembers,
      hmembers (name, type) List.mem_cons_self _ hown,
      ih (fun other hother => hmembers other (List.mem_cons_of_mem _ hother)) hlater]

/-- **An element is as long when its slots are turned round.** -/
theorem length_reverseSlots (h : slot.length = type.size) :
    (type.reverseSlots slot).length = type.size := by
  induction type generalizing slot with
  | compound members traits ih =>
    exact length_reverseMembers (fun member hmember slot => ih member hmember) h
  | array base extents traits ih =>
    rw [size] at h ⊢
    rw [reverseSlots, length_flatMap fun item hitem => ih (length_of_mem_slots h hitem)]
    rw [slots, List.length_map, List.length_range]
  | integer | float | enumeration | reference => exact (length_reverseSized _ slot).trans h
  | _ => exact h

/-! ## Leaves -/

variable {options : ElementOptions} {path : String}

/-- A slot of a word's size is turned round. -/
theorem reverseSized_of_word {size : WordSize} (h : slot.length = size.bytes) :
    reverseSized [1, 2, 4, 8] slot = slot.reverse := by
  rw [reverseSized, if_pos]
  rw [h, ← WordSize.isSome_ofBytes?, WordSize.ofBytes?_bytes]
  rfl

theorem reverseSized_of_format {format : FloatFormat} (h : slot.length = format.bytes) :
    reverseSized [2, 4, 8, 16] slot = slot.reverse := by
  rw [reverseSized, if_pos]
  rw [h]
  cases format <;> decide

theorem decodeInteger_swapped (order : ByteOrder) (signed : Bool) (slot : Bytes) :
    decodeInteger order.swapped signed (reverseSized [1, 2, 4, 8] slot) =
      decodeInteger order signed slot := by
  cases hsize : WordSize.ofBytes? slot.length with
  | none =>
    rw [reverseSized, if_neg (WordSize.not_mem_of_ofBytes?_eq_none hsize),
      decodeInteger_of_none hsize, decodeInteger_of_none hsize]
  | some size =>
    have hbytes : slot.length = size.bytes := (WordSize.bytes_of_ofBytes? hsize).symm
    rw [reverseSized_of_word hbytes, decodeInteger_of_length hbytes,
      decodeInteger_of_length (List.length_reverse.trans hbytes), ByteOrder.readWord_swapped]

theorem decodeFloat_swapped (order : ByteOrder) (slot : Bytes) :
    decodeFloat order.swapped (reverseSized [2, 4, 8, 16] slot) = decodeFloat order slot := by
  cases hformat : FloatFormat.ofBytes? slot.length with
  | none =>
    rw [reverseSized, if_neg (FloatFormat.not_mem_readSizes hformat),
      decodeFloat_of_none hformat, decodeFloat_of_none hformat]
  | some format =>
    have hbytes : slot.length = format.bytes := (FloatFormat.bytes_of_ofBytes? hformat).symm
    rw [reverseSized_of_format hbytes, decodeFloat_of_length hbytes,
      decodeFloat_of_length (List.length_reverse.trans hbytes), ByteOrder.readWord_swapped]

theorem decodeEnumerated_swapped (order : ByteOrder) (signed : Bool)
    (values : List (String × Int)) (slot : Bytes) :
    decodeEnumerated order.swapped signed values (reverseSized [1, 2, 4, 8] slot) =
      decodeEnumerated order signed values slot := by
  rw [decodeEnumerated, decodeEnumerated, decodeInteger_swapped, length_reverseSized]

theorem decodeReference_swapped (order : ByteOrder) {flavor : ReferenceFlavor}
    (h : slot.length = flavor.tokenSize) :
    decodeReference order.swapped flavor (reverseSized [8] slot) =
      decodeReference order flavor slot := by
  cases flavor with
  | object =>
    have height : slot.length ∈ [8] := List.mem_singleton.2 h
    rw [reverseSized, if_pos height, decodeReference, decodeReference, ByteOrder.readWord_swapped]
  | region | standard => rw [reverseSized, if_neg (by rw [h]; decide)]; rfl

/-! ## Trees -/

/-- The items of an array are decoded from their own slots. -/
theorem decodeAt_array {base : Datatype} {extents : List Nat} {traits : Traits}
    (h : slot.length = gridSize extents * base.size) :
    decodeAt options path (.array base extents traits) slot =
      .array ((slots base.size (gridSize extents) slot).map (decodeAt options path base)) := by
  rw [decodeAt, readSlot_of_length h, map_decodeAt_drop h]

/-- Elements that are turned round one by one are cut apart again. -/
theorem slots_reverseSlots {count : Nat} (h : slot.length = count * type.size) :
    slots type.size count ((slots type.size count slot).flatMap type.reverseSlots) =
      (slots type.size count slot).map type.reverseSlots := by
  have hcount : (slots type.size count slot).length = count := by
    rw [slots, List.length_map, List.length_range]
  have hcut := slots_flatMap fun item hitem =>
    length_reverseSlots (length_of_mem_slots h hitem)
  rwa [hcount] at hcut

/-- Members are decoded alike if each is. -/
theorem decodeMembers_swapped
    (h : ∀ member ∈ members, ∀ (path : String) (slot : Bytes), slot.length = member.2.size →
      decodeAt options path member.2.swapped (member.2.reverseSlots slot) =
        decodeAt options path member.2 slot)
    (above : String) (hslot : slot.length = sizeOfMembers members) :
    decodeMembers options above (swappedMembers members) (reverseMembers members slot) =
      decodeMembers options above members slot := by
  induction members generalizing slot with
  | nil => rfl
  | cons member rest ih =>
    obtain ⟨name, type⟩ := member
    obtain ⟨hown, hlater⟩ := length_of_members hslot
    have hturned := length_reverseSlots hown
    have hrest := ih (fun other hother => h other (List.mem_cons_of_mem _ hother)) hlater
    rw [swappedMembers, reverseMembers]
    cases htakes : takesPart options (memberPath above name) type with
    | false =>
      rw [decodeMembers_left htakes, decodeMembers_left (by rw [takesPart_swapped, htakes]),
        size_swapped, List.drop_left' hturned, hrest]
    | true =>
      have hfirst : decodeAt options (memberPath above name) type.swapped
          (type.reverseSlots (slot.take type.size)) =
            decodeAt options (memberPath above name) type (slot.take type.size) :=
        h (name, type) List.mem_cons_self (memberPath above name) _ hown
      have hreach : type.swapped.size ≤ (type.reverseSlots (slot.take type.size)).length :=
        Nat.le_of_eq ((size_swapped type).trans hturned.symm)
      have hreach' : type.size ≤ slot.length := hown ▸ List.length_take_le' _ _
      rw [decodeMembers_taken htakes, decodeMembers_taken (by rw [takesPart_swapped, htakes]),
        size_swapped, List.drop_left' hturned, hrest, decodeAt_append hreach, hfirst,
        decodeAt_take hreach']

/-- **An element whose slots are turned round** is read in the other order as
it is in its own. -/
theorem decodeAt_swapped (path : String) (h : slot.length = type.size) :
    decodeAt options path type.swapped (type.reverseSlots slot) =
      decodeAt options path type slot := by
  have hturned := length_reverseSlots h
  induction type generalizing path slot with
  | integer size signed traits =>
    exact (readSlot_of_length hturned _).trans
      ((decodeInteger_swapped _ _ _).trans (readSlot_of_length h _).symm)
  | float size traits =>
    exact (readSlot_of_length hturned _).trans
      ((decodeFloat_swapped _ _).trans (readSlot_of_length h _).symm)
  | enumeration base values traits =>
    rw [size] at h hturned
    rw [swapped, decodeAt, decodeAt, size_swapped, isSigned_swapped, readSlot_of_length h,
      readSlot_of_length hturned]
    exact decodeEnumerated_swapped _ _ _ _
  | reference flavor traits =>
    exact (readSlot_of_length hturned _).trans
      ((decodeReference_swapped _ h).trans (readSlot_of_length h _).symm)
  | compound members traits ih =>
    rw [size] at h hturned
    rw [swapped, decodeAt, decodeAt, sizeOfMembers_swapped, readSlot_of_length h,
      readSlot_of_length hturned, reverseSlots, decodeMembers_swapped _ path h]
    intro member hmember path slot hslot
    exact ih member hmember path hslot (length_reverseSlots hslot)
  | array base extents traits ih =>
    rw [size] at h hturned
    have hturned' : ((Datatype.array base extents traits).reverseSlots slot).length =
        gridSize extents * base.swapped.size := by rw [size_swapped, hturned]
    rw [swapped, decodeAt_array h, decodeAt_array hturned', size_swapped, reverseSlots,
      slots_reverseSlots h, List.map_map]
    congr 1
    refine List.map_congr_left fun item hitem => ?_
    have hitem' := length_of_mem_slots h hitem
    exact ih path hitem' (length_reverseSlots hitem')
  | _ => rfl

end Datatype

end TypedAttr
