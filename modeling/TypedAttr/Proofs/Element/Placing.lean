import TypedAttr.Proofs.Element.NeverWritten
/-!
# Writing one leaf

Any leaf of an element can be written on its own: what can be encoded into
the leaf can be put into its place in the element, wherever in the tree that
is, by a value that has nothing else in it (`exists_value_of_leaf`). In a
compound that is a value with one field, and in an array one whose other
items could not be read.
-/

namespace TypedAttr

namespace Bytes

theorem zeros_append (first second : Nat) : zeros first ++ zeros second = zeros (first + second) :=
  List.replicate_append_replicate

end Bytes

namespace Datatype

variable {options : ElementOptions} {path above name : String} {type : Datatype}
variable {members : List (String × Datatype)} {fields : List (String × Value)}

/-- What is written into fresh bytes is as long as the type says. -/
theorem length_of_encodeAt_zeros {value : Value} {slot : Bytes}
    (h : encodeAt options path type value (Bytes.zeros type.size) = .untouched slot) :
    slot.length = type.size := by
  have hlength := length_encodeAt options path type value (Bytes.zeros type.size)
  rw [h, Bytes.length_zeros] at hlength
  exact hlength

/-! ## Members -/

/-- What a member writes into fresh bytes, and the others behind it. -/
theorem encodeMembers_into_zeros {rest : List (String × Datatype)} {own after : Bytes}
    (hown : encodeField options (memberPath above name) name type fields
      (Bytes.zeros type.size) = .untouched own)
    (hafter : encodeMembers options above fields rest (Bytes.zeros (sizeOfMembers rest)) =
      .untouched after) :
    encodeMembers options above fields ((name, type) :: rest)
      (Bytes.zeros (sizeOfMembers ((name, type) :: rest))) = .untouched (own ++ after) := by
  rw [sizeOfMembers, encodeMembers_cons, Bytes.take_zeros, Bytes.drop_zeros,
    Nat.min_eq_left (Nat.le_add_right _ _), Nat.add_sub_cancel_left, hown]
  exact Overlay.andThen_untouched hafter

/-- A member without a field leaves its slot as it was. -/
theorem encodeField_absent (h : Value.lookup? name fields = none) (own : Bytes) :
    encodeField options path name type fields own = .untouched own := by
  unfold encodeField
  rw [h]
  split <;> rfl

/-- Members none of which has a field are left zero. -/
theorem encodeMembers_absent (h : ∀ name ∈ names members, Value.lookup? name fields = none) :
    encodeMembers options above fields members (Bytes.zeros (sizeOfMembers members)) =
      .untouched (Bytes.zeros (sizeOfMembers members)) := by
  induction members with
  | nil => rfl
  | cons member rest ih =>
    obtain ⟨name, type⟩ := member
    have hown : encodeField options (memberPath above name) name type fields
        (Bytes.zeros type.size) = .untouched (Bytes.zeros type.size) :=
      encodeField_absent (h name (by simp [names])) _
    have hafter := ih fun name hname => h name (List.mem_cons_of_mem _ hname)
    rw [encodeMembers_into_zeros hown hafter, sizeOfMembers, Bytes.zeros_append]

/-- A value with one field has no other. -/
theorem lookup?_single {other : String} {value : Value} (h : other ≠ name) :
    Value.lookup? other [(name, value)] = none := by
  simp [Value.lookup?, h.symm]

/-- The field of the first member is written before zeros. -/
theorem encodeMembers_first {convertText : Bool} {rest : List (String × Datatype)} {value : Value}
    {own : Bytes} (hname : name ∉ names rest)
    (hvalue : encodeAt ⟨convertText, .all⟩ (memberPath above name) type value
      (Bytes.zeros type.size) = .untouched own) :
    encodeMembers ⟨convertText, .all⟩ above [(name, value)] ((name, type) :: rest)
      (Bytes.zeros (sizeOfMembers ((name, type) :: rest))) =
        .untouched (own ++ Bytes.zeros (sizeOfMembers rest)) := by
  refine encodeMembers_into_zeros ?_ (encodeMembers_absent fun other hother => ?_)
  · simpa [encodeField, takesPart, MemberSelection.includes, Value.lookup?] using hvalue
  · refine lookup?_single ?_
    rintro rfl
    exact hname hother

/-- The field of any other member is written behind zeros. -/
theorem encodeMembers_later {rest : List (String × Datatype)} {other : String} {value : Value}
    {after : Bytes} (hother : other ≠ name)
    (hrest : encodeMembers options above [(other, value)] rest
      (Bytes.zeros (sizeOfMembers rest)) = .untouched after) :
    encodeMembers options above [(other, value)] ((name, type) :: rest)
      (Bytes.zeros (sizeOfMembers ((name, type) :: rest))) =
        .untouched (Bytes.zeros type.size ++ after) :=
  encodeMembers_into_zeros (encodeField_absent (lookup?_single hother.symm) _) hrest

/-- **One member can be written on its own**, by a value with one field. -/
theorem exists_field_of_leaf {convertText : Bool} {leaf : Slot} {bytes : Bytes}
    (hnames : (names members).Nodup) (hleaf : leaf ∈ layoutOfMembers members)
    (hmembers : ∀ member ∈ members, ∀ leaf' ∈ member.2.layout, leaf'.type = leaf.type →
      ∀ path, ∃ value slot,
        encodeAt ⟨convertText, .all⟩ path member.2 value (Bytes.zeros member.2.size) =
          .untouched slot ∧ leaf'.bytes slot = bytes) (above : String) :
    ∃ name ∈ names members, ∃ value slot,
      encodeMembers ⟨convertText, .all⟩ above [(name, value)] members
        (Bytes.zeros (sizeOfMembers members)) = .untouched slot ∧ leaf.bytes slot = bytes := by
  induction members generalizing leaf with
  | nil => cases hleaf
  | cons member rest ih =>
    obtain ⟨name, type⟩ := member
    obtain ⟨hname, hrest⟩ := List.nodup_cons.1 hnames
    rw [layoutOfMembers, List.mem_append, List.mem_map] at hleaf
    rcases hleaf with hleaf | ⟨later, hlater, rfl⟩
    · -- the leaf is of the first member
      obtain ⟨value, slot, hvalue, hslot⟩ :=
        hmembers (name, type) (by simp) leaf hleaf rfl (memberPath above name)
      refine ⟨name, by simp [names], value, _, encodeMembers_first hname hvalue, ?_⟩
      have hlength : slot.length = type.size := length_of_encodeAt_zeros hvalue
      rw [Slot.bytes_append (hlength ▸ end_le_size hleaf), hslot]
    · -- the leaf is of a member behind it
      obtain ⟨other, hother, value, slot, hvalue, hslot⟩ :=
        ih hrest hlater fun member hmember => hmembers member (List.mem_cons_of_mem _ hmember)
      have hne : other ≠ name := fun heq => hname (heq ▸ hother)
      refine ⟨other, List.mem_cons_of_mem _ hother, value, _,
        encodeMembers_later hne hvalue, ?_⟩
      rw [Slot.bytes_shift, List.drop_left' (Bytes.length_zeros _), hslot]

/-! ## Items -/

/-- **One item can be written on its own**, among others that could not be
read. -/
theorem exists_items_of_leaf {leaf : Slot} {value : Value} {slot : Bytes} {count i : Nat}
    (hleaf : leaf ∈ type.layout) (hnever : type.isNeverWritten = false) (hi : i < count)
    (hvalue : encodeAt options path type value (Bytes.zeros type.size) = .untouched slot) :
    ∃ items slots, items.length = count ∧
      Overlay.run (encodeAt options path type) type.size items (Bytes.zeros (count * type.size)) =
        .untouched slots ∧ leaf.bytes (slots.drop (i * type.size)) = leaf.bytes slot := by
  let item (j : Nat) : Value := if j = i then value else .failure .missing
  let bytes (j : Nat) : Bytes := if j = i then slot else Bytes.zeros type.size
  have hitem : ∀ j ∈ List.range count, encodeAt options path type (item j)
      (Bytes.zeros type.size) = .untouched (bytes j) := by
    intro j _
    by_cases hj : j = i
    · simp only [item, bytes, if_pos hj, hvalue]
    · simp only [item, bytes, if_neg hj]
      rw [encodeAt_of_settled (settle?_failure hnever _ _), Bytes.length_zeros]
  have hlength : ∀ j ∈ List.range count, (bytes j).length = type.size := by
    intro j hj
    exact length_of_encodeAt_zeros (hitem j hj)
  refine ⟨(List.range count).map item, (List.range count).flatMap bytes, by simp,
    Overlay.run_map List.length_range hitem, ?_⟩
  -- from the item on, its own bytes come first
  have hrange : (List.range count).drop i = i :: (List.range count).drop (i + 1) := by
    rw [List.drop_eq_getElem_cons (by simpa using hi), List.getElem_range]
  have hown : bytes i = slot := if_pos rfl
  have hinside : leaf.offset + leaf.type.size ≤ slot.length := by
    rw [length_of_encodeAt_zeros hvalue]
    exact end_le_size hleaf
  rw [drop_flatMap hlength, hrange, List.flatMap_cons, hown, Slot.bytes_append hinside]

/-! ## Trees -/

/-- What is written is of a type that can be. -/
theorem isNeverWritten_of_untouched {value : Value} {slot bytes : Bytes}
    (h : encodeAt options path type value slot = .untouched bytes) :
    type.isNeverWritten = false := by
  have hencoded : (encodeAt options path type value slot).failure = none := by
    rw [h]
    rfl
  exact (written_of_encodeAt hencoded).2

/-- What holds a leaf that can be written can be written itself. -/
theorem isNeverWritten_of_leaf {leaf : Slot} (hleaf : leaf ∈ type.layout)
    (h : leaf.type.isNeverWritten = false) : type.isNeverWritten = false := by
  cases type with
  | compound | array => rfl
  | _ =>
    simp only [layout, List.mem_singleton] at hleaf
    rwa [hleaf] at h

/-- **Any leaf can be written on its own.** What can be encoded into a leaf
can be put into its place in an element. -/
theorem exists_value_of_leaf {convertText : Bool} {leaf : Slot} {value : Value} {bytes : Bytes}
    (hnames : type.hasDistinctNames = true) (hleaf : leaf ∈ type.layout)
    (hvalue : ∀ path, encodeAt ⟨convertText, .all⟩ path leaf.type value
      (Bytes.zeros leaf.type.size) = .untouched bytes) (path : String) :
    ∃ whole slot, encodeAt ⟨convertText, .all⟩ path type whole (Bytes.zeros type.size) =
      .untouched slot ∧ leaf.bytes slot = bytes := by
  have hwritten := isNeverWritten_of_untouched (hvalue path)
  induction type generalizing leaf path with
  | compound members traits ih =>
    obtain ⟨hdistinct, hmembers⟩ := hasDistinctNames_compound.1 hnames
    rw [layout] at hleaf
    obtain ⟨name, -, inner, slot, hslot, hbytes⟩ := exists_field_of_leaf hdistinct hleaf
      (fun member hmember leaf' hleaf' htype path =>
        ih member hmember (hmembers member hmember) hleaf' (htype ▸ hvalue) path
          (htype ▸ hwritten)) path
    refine ⟨.compound [(name, inner)], slot, ?_, hbytes⟩
    rw [encodeAt, settle?_eq_none rfl rfl rfl]
    exact hslot
  | array base extents traits ih =>
    simp only [layout, List.mem_flatMap, List.mem_range, List.mem_map] at hleaf
    obtain ⟨i, hi, own, hown, rfl⟩ := hleaf
    obtain ⟨item, slot, hitem, hbytes⟩ :=
      ih (hasDistinctNames_array.symm.trans hnames) hown hvalue path hwritten
    have hbase := isNeverWritten_of_leaf hown hwritten
    obtain ⟨items, slots, hcount, hrun, hslots⟩ := exists_items_of_leaf hown hbase hi hitem
    refine ⟨.array items, slots, ?_, ?_⟩
    · rw [encodeAt, settle?_eq_none rfl rfl rfl]
      simp only [hcount, if_true]
      exact hrun
    · rw [Slot.bytes_shift, hslots, hbytes]
  | integer | float | fixedText | varText | bitfield | blob | time | noClass | sequence
  | enumeration | reference =>
    simp only [layout, List.mem_singleton] at hleaf
    subst hleaf
    refine ⟨value, bytes, hvalue path, ?_⟩
    rw [Slot.bytes, List.drop_zero, List.take_of_length_le]
    exact Nat.le_of_eq (length_of_encodeAt_zeros (hvalue path))

/-- And into its place in one of many elements. -/
theorem exists_elements_of_leaf {convertText : Bool} {leaf : Slot} {value : Value} {bytes : Bytes}
    {count i : Nat} (hnames : type.hasDistinctNames = true) (hleaf : leaf ∈ type.layout)
    (hvalue : ∀ path, encodeAt ⟨convertText, .all⟩ path leaf.type value
      (Bytes.zeros leaf.type.size) = .untouched bytes) (hi : i < count) :
    ∃ items slots, items.length = count ∧
      type.encodeElements ⟨convertText, .all⟩ items = .ok slots ∧
      leaf.bytes (slots.drop (i * type.size)) = bytes := by
  obtain ⟨whole, slot, hwhole, hbytes⟩ := exists_value_of_leaf hnames hleaf hvalue ""
  have hnever := isNeverWritten_of_leaf hleaf (isNeverWritten_of_untouched (hvalue ""))
  obtain ⟨items, slots, hcount, hrun, hslots⟩ := exists_items_of_leaf hleaf hnever hi hwhole
  refine ⟨items, slots, hcount, ?_, hslots.trans hbytes⟩
  rw [encodeElements, hcount, Nat.mul_comm, hrun, Overlay.toExcept_untouched]

end Datatype

end TypedAttr
