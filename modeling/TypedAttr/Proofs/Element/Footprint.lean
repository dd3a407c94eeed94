import TypedAttr.Proofs.Datatype.Packing
import TypedAttr.Proofs.Element.Mask
/-!
# What encoding in place writes over

The parts of an element that encoding comes to (`ComesTo`) have their masks in
their own slots. So on the mask of an element are all leaves and all failures
that encoding comes to, and off it are the members that it passes over; and
encoding into a buffer writes over just what is on the mask
(`exists_footprint`).
-/

namespace TypedAttr

namespace Datatype

variable {options : ElementOptions} {path : String} {type : Datatype} {value : Value}
variable {members : List (String × Datatype)} {fields : List (String × Value)}

/-! ## Parts that encoding comes to -/

/-- A part of an element: where it starts, by what path the members in it are
named, and what is to be written there. -/
structure Part where
  offset : Nat
  path : String
  type : Datatype
  value : Value

/-- Whether encoding comes to a part: to the whole, from a compound to the
fields of members that take part, and from an array to its items. The walk is
that of `Reaches`, and here it is followed with the places it leads to. -/
inductive ComesTo (options : ElementOptions) (whole : Part) : Part → Prop
  | self : ComesTo options whole whole
  | field {offset i : Nat} {path name : String} {type : Datatype} {value : Value}
    {members : List (String × Datatype)} {traits : Traits} {fields : List (String × Value)}
    (h : ComesTo options whole ⟨offset, path, .compound members traits, .compound fields⟩)
    (hmember : members[i]? = some (name, type))
    (htakes : takesPart options (memberPath path name) type = true)
    (hfield : Value.lookup? name fields = some value) :
    ComesTo options whole ⟨offset + offsetOf members i, memberPath path name, type, value⟩
  | item {offset i : Nat} {path : String} {base : Datatype} {extents : List Nat} {traits : Traits}
    {items : List Value} {item : Value}
    (h : ComesTo options whole ⟨offset, path, .array base extents traits, .array items⟩)
    (hcount : items.length = gridSize extents) (hitem : items[i]? = some item) :
    ComesTo options whole ⟨offset + i * base.size, path, base, item⟩

/-- The mask of a member is found in its slot. -/
theorem maskOfField_of_mask {i : Nat} {member : String × Datatype}
    (hmember : members[i]? = some member) :
    ((maskOfMembers options path fields members).drop (offsetOf members i)).take member.2.size =
      maskOfField options path fields member := by
  have hlength (member : String × Datatype) :
      (maskOfField options path fields member).length = member.2.size :=
    length_maskOfField fun path value => length_mask ..
  rw [maskOfMembers_eq_flatten]
  refine take_drop_flatten (fun j => ?_) hmember ?_
  · rw [List.getElem?_map, Option.map_map]
    simp only [Function.comp_def, hlength]
  · rw [List.getElem?_map, hmember, Option.map_some]

/-- **The mask of a part is found in its slot.** -/
theorem mask_of_comesTo {part : Part} (h : ComesTo options ⟨0, path, type, value⟩ part) :
    ((mask options path type value).drop part.offset).take part.type.size =
      mask options part.path part.type part.value := by
  induction h with
  | self => rw [List.drop_zero, List.take_of_length_le (Nat.le_of_eq (length_mask ..))]
  | @field offset i below name node met members traits fields h hmember htakes hfield ih =>
    have hslot : ((mask options path type value).drop offset).take (sizeOfMembers members) =
        maskOfMembers options below fields members := ih
    have hown : maskOfField options below fields (name, node) =
        mask options (memberPath below name) node met := by
      rw [maskOfField, if_pos htakes, hfield]
    rw [← hown, ← maskOfField_of_mask hmember, ← hslot,
      take_drop_take (offsetOf_add_size_le hmember), List.drop_drop]
  | @item offset i below base extents traits items item h hcount hitem ih =>
    have hslot : ((mask options path type value).drop offset).take (gridSize extents * base.size) =
        items.flatMap (mask options below base) := ih.trans (if_pos hcount)
    obtain ⟨hi, rfl⟩ := List.getElem?_eq_some_iff.1 hitem
    rw [← take_drop_flatMap (fun item _ => length_mask options below base item) hi, ← hslot,
      take_drop_take (item_end_le (hcount ▸ hi) base.size), List.drop_drop]

/-- So a byte of a part is on the mask if it is on the part's. -/
theorem getElem?_mask_of_comesTo {part : Part} {p : Nat}
    (h : ComesTo options ⟨0, path, type, value⟩ part) (hp : p < part.type.size) :
    (mask options path type value)[part.offset + p]? =
      (mask options part.path part.type part.value)[p]? := by
  rw [← mask_of_comesTo h, List.getElem?_take_of_lt hp, List.getElem?_drop]

/-- Leaves and failures are written whole. -/
theorem mask_of_written {part : Part} {p : Nat} (h : ComesTo options ⟨0, path, type, value⟩ part)
    (hwritten : part.type.isLeaf = true ∨ part.value.isFailure = true)
    (hp : p < part.type.size) : (mask options path type value)[part.offset + p]? = some true := by
  have hmask : mask options part.path part.type part.value =
      List.replicate part.type.size true := by
    rcases hwritten with hleaf | hfailure
    · exact mask_leaf hleaf _
    · obtain ⟨cause, hcause⟩ := Value.exists_of_isFailure hfailure
      rw [hcause, mask_failure]
  rw [getElem?_mask_of_comesTo h hp, hmask, List.getElem?_replicate, if_pos hp]

/-- Members that are passed over are not written. -/
theorem mask_of_skipped {offset i p : Nat} {below : String} {member : String × Datatype}
    {traits : Traits}
    (h : ComesTo options ⟨0, path, type, value⟩
      ⟨offset, below, .compound members traits, .compound fields⟩)
    (hmember : members[i]? = some member)
    (hskipped : takesPart options (memberPath below member.1) member.2 = false ∨
      Value.lookup? member.1 fields = none) (hp : p < member.2.size) :
    (mask options path type value)[offset + (offsetOf members i + p)]? = some false := by
  have hinside := offsetOf_add_size_le hmember
  have hmask : maskOfField options below fields member = List.replicate member.2.size false := by
    unfold maskOfField
    rcases hskipped with htakes | hfield
    · rw [htakes, if_neg Bool.false_ne_true]
    · rw [hfield, ite_self]
  have hpart := getElem?_mask_of_comesTo h (p := offsetOf members i + p)
    (Nat.lt_of_lt_of_le (Nat.add_lt_add_left hp _) hinside)
  rw [hpart, mask, ← List.getElem?_drop, ← List.getElem?_take_of_lt hp,
    maskOfField_of_mask hmember, hmask, List.getElem?_replicate, if_pos hp]

/-! ## Encoding into bytes that are there -/

/-- What it means that encoding a value as a type writes over the bytes of a
set. -/
structure Footprint (options : ElementOptions) (type : Datatype) (value : Value)
    (covers : Nat → Prop) : Prop where
  inside : ∀ p, covers p → p < type.size
  /-- A buffer that is too short is refused. -/
  short : ∀ buffer, buffer.length < type.size →
    type.encodeInto options value buffer =
      .refused buffer (.sizeMismatch type.size buffer.length)
  length : ∀ buffer, (type.encodeInto options value buffer).slot.length = buffer.length
  /-- Any other is refused just as fresh bytes are. -/
  failure : ∀ buffer, type.size ≤ buffer.length → ∀ e,
    (type.encodeInto options value buffer).failure = some e ↔ type.encode options value = .error e
  /-- What is covered is as in fresh bytes. -/
  written : ∀ buffer, type.size ≤ buffer.length → ∀ bytes, type.encode options value = .ok bytes →
    (type.encodeInto options value buffer).failure = none ∧
      ∀ p, covers p → (type.encodeInto options value buffer).slot[p]? = bytes[p]?
  /-- What is not covered stays as it was, even where encoding fails. -/
  kept : ∀ buffer p, ¬covers p → (type.encodeInto options value buffer).slot[p]? = buffer[p]?
  /-- Leaves and failures that encoding comes to are covered. -/
  whole : ∀ part, ComesTo options ⟨0, "", type, value⟩ part →
    part.type.isLeaf = true ∨ part.value.isFailure = true →
      ∀ p < part.type.size, covers (part.offset + p)
  /-- Members that were not selected, or have no field, are not. -/
  skipped : ∀ offset path members traits fields,
    ComesTo options ⟨0, "", type, value⟩
      ⟨offset, path, .compound members traits, .compound fields⟩ →
      ∀ i member, members[i]? = some member →
        takesPart options (memberPath path member.1) member.2 = false ∨
          Value.lookup? member.1 fields = none →
        ∀ p < member.2.size, ¬covers (offset + offsetOf members i + p)

theorem encodeInto_of_fits {buffer : Bytes} (h : type.size ≤ buffer.length) :
    type.encodeInto options value buffer =
      (encodeAt options "" type value (buffer.take type.size)).andThen
        (buffer.drop type.size) .untouched :=
  if_neg (Nat.not_lt.2 h)

/-- A buffer is refused just as fresh bytes are. -/
theorem failure_encodeInto {buffer : Bytes} (h : type.size ≤ buffer.length) :
    (type.encodeInto options value buffer).failure =
      (encodeAt options "" type value (Bytes.zeros type.size)).failure := by
  have hmask := length_mask options "" type value
  rw [encodeInto_of_fits h, Overlay.failure_andThen]
  refine (Option.or_none ..).trans ((laysOver_encodeAt options "" type value).failure _ _ ?_ ?_)
  · rw [hmask, List.length_take_of_le h]
  · rw [hmask, Bytes.length_zeros]

theorem length_encodeInto (buffer : Bytes) :
    (type.encodeInto options value buffer).slot.length = buffer.length := by
  unfold encodeInto
  split
  · rfl
  · rw [Overlay.length_andThen rfl, length_encodeAt, ← List.length_append, List.take_append_drop]

/-- What is on the mask is written as in fresh bytes. -/
theorem getElem?_encodeInto_of_mask {buffer bytes : Bytes} {p : Nat}
    (h : type.size ≤ buffer.length) (hencoded : type.encode options value = .ok bytes)
    (hp : (mask options "" type value)[p]? = some true) :
    (type.encodeInto options value buffer).slot[p]? = bytes[p]? := by
  have hmask := length_mask options "" type value
  have hslot : (buffer.take type.size).length = type.size := List.length_take_of_le h
  obtain ⟨hinside, -⟩ := List.getElem?_eq_some_iff.1 hp
  obtain ⟨hdone, rfl⟩ := Overlay.toExcept_eq_ok.1 hencoded
  rw [encodeInto_of_fits h,
    Overlay.getElem?_andThen_left ((length_encodeAt ..).trans hslot) (hmask ▸ hinside)]
  exact ((laysOver_encodeAt options "" type value).written _ _
    ((Bytes.length_zeros _).trans hmask.symm) (hslot.trans hmask.symm) hdone p hp).symm

/-- What is off the mask stays as it was. -/
theorem getElem?_encodeInto_off_mask {p : Nat} (buffer : Bytes)
    (hp : (mask options "" type value)[p]? ≠ some true) :
    (type.encodeInto options value buffer).slot[p]? = buffer[p]? := by
  have hmask := length_mask options "" type value
  rcases Nat.lt_or_ge buffer.length type.size with hshort | h
  · rw [encodeInto, if_pos hshort, Overlay.refused]
  · have hslot : (buffer.take type.size).length = type.size := List.length_take_of_le h
    have hlength := (length_encodeAt options "" type value (buffer.take type.size)).trans hslot
    rw [encodeInto_of_fits h]
    rcases Nat.lt_or_ge p type.size with hinside | hbehind
    · rw [Overlay.getElem?_andThen_left hlength hinside,
        (laysOver_encodeAt options "" type value).kept _ (hslot.trans hmask.symm) p hp,
        List.getElem?_take_of_lt hinside]
    · obtain ⟨q, rfl⟩ := Nat.exists_eq_add_of_le hbehind
      rw [Overlay.getElem?_andThen_right hlength, ← List.getElem?_drop]
      exact ite_self _

/-- **Encoding in place is an overlay.** Every type, value and options have a
set of bytes that encoding writes over, whatever the buffer. -/
theorem exists_footprint (options : ElementOptions) (type : Datatype) (value : Value) :
    ∃ covers, Footprint options type value covers := by
  refine ⟨fun p => (mask options "" type value)[p]? = some true, ?_⟩
  constructor
  case inside =>
    intro p hp
    obtain ⟨hinside, -⟩ := List.getElem?_eq_some_iff.1 hp
    rwa [length_mask] at hinside
  case short =>
    intro buffer hshort
    exact if_pos hshort
  case length => exact length_encodeInto
  case failure =>
    intro buffer h e
    rw [failure_encodeInto h, encode, Overlay.toExcept_eq_error]
  case written =>
    intro buffer h bytes hencoded
    refine ⟨?_, fun p hp => getElem?_encodeInto_of_mask h hencoded hp⟩
    rw [failure_encodeInto h]
    exact (Overlay.toExcept_eq_ok.1 hencoded).1
  case kept =>
    intro buffer p hp
    exact getElem?_encodeInto_off_mask buffer hp
  case whole =>
    intro part hpart hwritten p hp
    exact mask_of_written hpart hwritten hp
  case skipped =>
    intro offset path members traits fields hpart i member hmember hskipped p hp hcovered
    rw [Nat.add_assoc, mask_of_skipped hpart hmember hskipped hp] at hcovered
    cases hcovered

/-- A record with a number that could not be read, a member that was not
selected, and a text shorter than its slot. -/
theorem exists_footprint_record :
    let type := ofMembers
      [("n", ofInteger 1 false), ("unused", ofBlob 2), ("name", ofFixedText 2)]
    let options : ElementOptions := { members := .only ["n", "name"] }
    let value : Value := .compound [("name", .text "a"), ("n", .failure .missing)]
    type.encodeInto options value [9, 9, 9, 9, 9, 9] = .untouched [0, 9, 9, 97, 0, 9] ∧
      ∃ covers, Footprint options type value covers ∧
        covers 0 ∧ ¬covers 1 ∧ ¬covers 2 ∧ covers 3 ∧ covers 4 ∧ ¬covers 5 := by
  intro type options value
  obtain ⟨covers, h⟩ := exists_footprint options type value
  have hnumber := h.whole _ (.field (i := 0) .self rfl (by decide) rfl) (.inl rfl)
  have hname := h.whole _ (.field (i := 2) .self rfl (by decide) rfl) (.inl rfl)
  have hunused := h.skipped _ _ _ _ _ .self 1 _ rfl (.inl (by decide))
  have hbehind : ¬covers 5 := fun hcovered => absurd (h.inside 5 hcovered) (by decide)
  exact ⟨rfl, covers, h, hnumber 0 (by decide), hunused 0 (by decide), hunused 1 (by decide),
    hname 0 (by decide), hname 1 (by decide), hbehind⟩

end Datatype

end TypedAttr
