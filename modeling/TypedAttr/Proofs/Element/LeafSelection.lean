import TypedAttr.Proofs.Element.Projection
/-!
# Selections that leave nothing out

Members are chosen by the paths of leaf fields, and only those that some
element has matter (`fieldPaths`): options that agree about them read and write
alike (`decodeAt_congr`, `encodeAt_congr`), and a selection without one of them
reads something else (`fieldPathsAt_subset_of_decodeAt`). All of them are among
the leaves of what is left when arrays are taken off (`fieldPathsAt_subset`).
An array by itself has no leaves, though, so to select those of an array of
compounds leaves out whatever is in its items (`sameElements_leafPaths_iff`).
-/

namespace TypedAttr

/-- Options that treat text alike and make the same choice about some paths. -/
structure ElementOptions.AgreeOn (one other : ElementOptions) (paths : List String) : Prop where
  convertText : one.convertText = other.convertText
  includes : ∀ path ∈ paths, one.members.includes path = other.members.includes path

namespace ElementOptions.AgreeOn

variable {one other : ElementOptions} {paths fewer : List String}

theorem mono (h : AgreeOn one other paths) (hfewer : fewer ⊆ paths) : AgreeOn one other fewer :=
  ⟨h.convertText, fun path hpath => h.includes path (hfewer hpath)⟩

end ElementOptions.AgreeOn

namespace Datatype

open ElementOptions (AgreeOn)

/-! ## Paths that are asked for -/

mutual

/-- The paths of the leaf fields in elements of a type at a path. An array
without items has no fields in any. -/
def fieldPathsAt (path : String) : Datatype → List String
  | .compound members _ => fieldPathsBelow path members
  | .array base extents _ => if gridSize extents = 0 then [] else fieldPathsAt path base
  | _ => []

/-- The paths of the leaf fields of members below a path, in declared order. -/
def fieldPathsBelow (above : String) : List (String × Datatype) → List String
  | [] => []
  | (name, type) :: rest =>
    (if type.leafBase.isCompound then fieldPathsAt (memberPath above name) type
      else [memberPath above name]) ++ fieldPathsBelow above rest

end

/-- The paths of all leaf fields in elements of a type. -/
def fieldPaths (type : Datatype) : List String := type.fieldPathsAt ""

variable {type : Datatype} {members rest : List (String × Datatype)} {path above name : String}

/-- A member is a leaf unless it is a compound when all arrays are taken off. -/
theorem leafPathsAt_eq :
    leafPathsAt path type =
      if type.leafBase.isCompound then leafPathsBelow path type.leafBase.members else [path] := by
  induction type with
  | array base extents traits ih => exact ih
  | _ => rfl

theorem fieldPathsBelow_subset
    (hmembers : ∀ member ∈ members, ∀ path,
      fieldPathsAt path member.2 ⊆ leafPathsBelow path member.2.leafBase.members) :
    fieldPathsBelow above members ⊆ leafPathsBelow above members := by
  induction members with
  | nil => exact List.Subset.refl _
  | cons member rest ih =>
    obtain ⟨hmember, hrest⟩ := List.forall_mem_cons.1 hmembers
    rw [fieldPathsBelow, leafPathsBelow, leafPathsAt_eq]
    refine List.append_subset.2
      ⟨List.subset_append_of_subset_left _ ?_, List.subset_append_of_subset_right _ (ih hrest)⟩
    split
    · exact hmember _
    · exact List.Subset.refl _

/-- **The leaf fields are leaves** of what is left when all arrays are taken
off. -/
theorem fieldPathsAt_subset (path : String) (type : Datatype) :
    fieldPathsAt path type ⊆ leafPathsBelow path type.leafBase.members := by
  induction type generalizing path with
  | compound members traits ih =>
    exact fieldPathsBelow_subset fun member hmember => ih member hmember
  | array base extents traits ih =>
    rw [fieldPathsAt]
    split
    · exact List.nil_subset _
    · exact ih path
  | _ => exact List.nil_subset _

/-- There are none in a leaf. -/
theorem fieldPathsAt_of_leaf (h : type.leafBase.isCompound = false) :
    fieldPathsAt path type = [] := by
  have hmembers : type.leafBase.members = [] := by
    cases hleaf : type.leafBase with
    | compound members traits =>
      rw [hleaf] at h
      cases h
    | _ => rfl
  have hnone := fieldPathsAt_subset path type
  rw [hmembers] at hnone
  exact List.eq_nil_of_subset_nil hnone

/-- The paths of a member's leaf fields are among those of all members. -/
theorem fieldPathsAt_subset_cons :
    fieldPathsAt (memberPath above name) type ⊆ fieldPathsBelow above ((name, type) :: rest) := by
  rw [fieldPathsBelow]
  cases hcompound : type.leafBase.isCompound with
  | true => exact List.subset_append_left _ _
  | false =>
    rw [fieldPathsAt_of_leaf hcompound]
    exact List.nil_subset _

theorem fieldPathsBelow_subset_cons :
    fieldPathsBelow above rest ⊆ fieldPathsBelow above ((name, type) :: rest) :=
  List.subset_append_right _ _

/-! ## Options that agree -/

variable {one other : ElementOptions}

/-- Members take part alike, as only leaves may be left out. -/
theorem takesPart_congr (h : AgreeOn one other (fieldPathsBelow above ((name, type) :: rest))) :
    takesPart one (memberPath above name) type = takesPart other (memberPath above name) type := by
  rw [takesPart, takesPart]
  cases hcompound : type.leafBase.isCompound with
  | true => rfl
  | false => exact h.includes _ (by simp [fieldPathsBelow, hcompound])

theorem decodeMembers_congr
    (hmembers : ∀ member ∈ members, ∀ path bytes, AgreeOn one other (fieldPathsAt path member.2) →
      decodeAt one path member.2 bytes = decodeAt other path member.2 bytes)
    (h : AgreeOn one other (fieldPathsBelow above members)) (bytes : Bytes) :
    decodeMembers one above members bytes = decodeMembers other above members bytes := by
  induction members generalizing bytes with
  | nil => rfl
  | cons member rest ih =>
    obtain ⟨name, type⟩ := member
    obtain ⟨hmember, hrest⟩ := List.forall_mem_cons.1 hmembers
    have hvalue := hmember (memberPath above name) bytes (h.mono fieldPathsAt_subset_cons)
    have hlater := ih hrest (h.mono fieldPathsBelow_subset_cons) (bytes.drop type.size)
    have htakes := takesPart_congr h
    cases hother : takesPart other (memberPath above name) type with
    | true =>
      rw [decodeMembers_taken (htakes.trans hother), decodeMembers_taken hother, hvalue, hlater]
    | false => rw [decodeMembers_left (htakes.trans hother), decodeMembers_left hother, hlater]

/-- **Options that agree about the leaf fields read alike**, whatever the
bytes. -/
theorem decodeAt_congr (path : String) (type : Datatype) (bytes : Bytes)
    (h : AgreeOn one other (fieldPathsAt path type)) :
    decodeAt one path type bytes = decodeAt other path type bytes := by
  induction type generalizing path bytes with
  | compound members traits ih =>
    have hfields : ∀ slot, decodeMembers one path members slot =
        decodeMembers other path members slot := decodeMembers_congr ih h
    simp only [decodeAt, hfields]
  | array base extents traits ih =>
    rw [fieldPathsAt] at h
    by_cases hempty : gridSize extents = 0
    · -- no item is read
      simp only [decodeAt, hempty, List.range_zero, List.map_nil]
    · rw [if_neg hempty] at h
      have hitems : ∀ slot, decodeAt one path base slot = decodeAt other path base slot :=
        fun slot => ih path slot h
      simp only [decodeAt, hitems]
  | fixedText size traits =>
    have htext : decodeText one = decodeText other := by
      funext padding slot
      rw [decodeText, decodeText, h.convertText]
    rw [decodeAt, decodeAt, htext]
  | _ => rfl

theorem encodeMembers_congr
    (hmembers : ∀ member ∈ members, ∀ path, AgreeOn one other (fieldPathsAt path member.2) →
      encodeAt one path member.2 = encodeAt other path member.2)
    (h : AgreeOn one other (fieldPathsBelow above members)) (fields : List (String × Value)) :
    encodeMembers one above fields members = encodeMembers other above fields members := by
  induction members with
  | nil => rfl
  | cons member rest ih =>
    obtain ⟨name, type⟩ := member
    obtain ⟨hmember, hrest⟩ := List.forall_mem_cons.1 hmembers
    have hwrite := hmember (memberPath above name) (h.mono fieldPathsAt_subset_cons)
    have hlater := ih hrest (h.mono fieldPathsBelow_subset_cons)
    have htakes := takesPart_congr h
    simp only [takesPart] at htakes
    funext slot
    simp only [encodeMembers, htakes, hlater, hwrite]

/-- **And they write alike**, whatever the value and whatever was in the
slot. -/
theorem encodeAt_congr (path : String) (type : Datatype)
    (h : AgreeOn one other (fieldPathsAt path type)) :
    encodeAt one path type = encodeAt other path type := by
  induction type generalizing path with
  | compound members traits ih =>
    have hfields : ∀ fields, encodeMembers one path fields members =
        encodeMembers other path fields members := encodeMembers_congr ih h
    funext value slot
    unfold encodeAt
    simp only [hfields]
  | array base extents traits ih =>
    have hitems : ∀ items : List Value, items.length = gridSize extents →
        Overlay.run (encodeAt one path base) base.size items =
          Overlay.run (encodeAt other path base) base.size items := by
      intro items hlength
      rw [fieldPathsAt] at h
      by_cases hempty : gridSize extents = 0
      · obtain rfl : items = [] := List.eq_nil_of_length_eq_zero (hlength.trans hempty)
        rfl
      · rw [if_neg hempty] at h
        rw [ih path h]
    funext value slot
    cases value with
    | array items =>
      by_cases hlength : items.length = gridSize extents
      · simp only [encodeAt, hlength, if_true, hitems items hlength]
      · simp only [encodeAt, hlength, if_false]
    | _ => simp only [encodeAt]
  | _ =>
    funext value slot
    simp only [encodeAt]

/-! ## Selections -/

variable {convertText : Bool} {paths : List String}

/-- A selection agrees with all members about what it has. -/
theorem agreeOn_only {fields : List String} (h : fields ⊆ paths) :
    AgreeOn ⟨convertText, .only paths⟩ ⟨convertText, .all⟩ fields :=
  ⟨rfl, fun _ hpath => decide_eq_true (h hpath)⟩

theorem length_decodeMembers_le (options : ElementOptions) (bytes : Bytes) :
    (decodeMembers options above members bytes).length ≤ members.length := by
  induction members generalizing bytes with
  | nil => exact Nat.le_refl _
  | cons member rest ih =>
    obtain ⟨name, type⟩ := member
    cases htakes : takesPart options (memberPath above name) type with
    | true =>
      rw [decodeMembers_taken htakes]
      exact Nat.succ_le_succ (ih _)
    | false =>
      rw [decodeMembers_left htakes]
      exact Nat.le_succ_of_le (ih _)

theorem length_decodeMembers_all (bytes : Bytes) :
    (decodeMembers ⟨convertText, .all⟩ above members bytes).length = members.length := by
  induction members generalizing bytes with
  | nil => rfl
  | cons member rest ih =>
    rw [decodeMembers_taken (takesPart_all _ _), List.length_cons, ih, List.length_cons]

theorem fieldPathsBelow_subset_of_decodeMembers
    (hmembers : ∀ member ∈ members, ∀ path bytes, member.2.size ≤ bytes.length →
      decodeAt ⟨convertText, .only paths⟩ path member.2 bytes =
        decodeAt ⟨convertText, .all⟩ path member.2 bytes → fieldPathsAt path member.2 ⊆ paths)
    {bytes : Bytes} (hbytes : sizeOfMembers members ≤ bytes.length)
    (h : decodeMembers ⟨convertText, .only paths⟩ above members bytes =
      decodeMembers ⟨convertText, .all⟩ above members bytes) :
    fieldPathsBelow above members ⊆ paths := by
  induction members generalizing bytes with
  | nil => exact List.nil_subset _
  | cons member rest ih =>
    obtain ⟨name, type⟩ := member
    obtain ⟨hmember, hrest⟩ := List.forall_mem_cons.1 hmembers
    rw [sizeOfMembers] at hbytes
    have hown : type.size ≤ bytes.length := Nat.le_of_add_right_le hbytes
    have hlater : sizeOfMembers rest ≤ (bytes.drop type.size).length := by
      rw [List.length_drop]
      omega
    have hall : takesPart ⟨convertText, .all⟩ (memberPath above name) type = true :=
      takesPart_all _ _
    rw [decodeMembers_taken hall] at h
    cases htakes : takesPart ⟨convertText, .only paths⟩ (memberPath above name) type with
    | true =>
      rw [decodeMembers_taken htakes] at h
      obtain ⟨hfield, hfields⟩ := List.cons.inj h
      refine List.append_subset.2 ⟨?_, ih hrest hlater hfields⟩
      cases hcompound : type.leafBase.isCompound with
      | true => exact hmember _ _ hown (Prod.mk.inj hfield).2
      | false =>
        rw [takesPart_only, isKept, hcompound, Bool.false_or, decide_eq_true_iff] at htakes
        exact List.cons_subset.2 ⟨htakes, List.nil_subset _⟩
    | false =>
      -- one field is missing, and no other takes its place
      rw [decodeMembers_left htakes] at h
      have hlength := congrArg List.length h
      rw [List.length_cons, length_decodeMembers_all] at hlength
      have hle : (decodeMembers ⟨convertText, .only paths⟩ above rest
          (bytes.drop type.size)).length ≤ rest.length := length_decodeMembers_le _ _
      omega

/-- **A selection that reads what is read of all members** has all leaf fields,
if there are bytes for them. -/
theorem fieldPathsAt_subset_of_decodeAt (path : String) (type : Datatype) {bytes : Bytes}
    (hbytes : type.size ≤ bytes.length)
    (h : decodeAt ⟨convertText, .only paths⟩ path type bytes =
      decodeAt ⟨convertText, .all⟩ path type bytes) : fieldPathsAt path type ⊆ paths := by
  induction type generalizing path bytes with
  | compound members traits ih =>
    rw [Datatype.size] at hbytes
    rw [decodeAt, decodeAt, readSlot_of_le hbytes, readSlot_of_le hbytes] at h
    have hslot : sizeOfMembers members ≤ (bytes.take (sizeOfMembers members)).length :=
      Nat.le_of_eq (List.length_take_of_le hbytes).symm
    exact fieldPathsBelow_subset_of_decodeMembers
      (fun member hmember path _ => ih member hmember path) hslot (Value.compound.inj h)
  | array base extents traits ih =>
    rw [fieldPathsAt]
    by_cases hempty : gridSize extents = 0
    · rw [if_pos hempty]
      exact List.nil_subset _
    · rw [if_neg hempty]
      rw [Datatype.size] at hbytes
      rw [decodeAt, decodeAt, readSlot_of_le hbytes, readSlot_of_le hbytes] at h
      -- the first item has all the fields that any item has
      have hfirst := List.map_inj_left.1 (Value.array.inj h) 0
        (List.mem_range.2 (Nat.pos_of_ne_zero hempty))
      have hitem : base.size ≤
          ((bytes.take (gridSize extents * base.size)).drop (0 * base.size)).length := by
        rw [Nat.zero_mul, List.drop_zero, List.length_take_of_le hbytes]
        exact Nat.le_mul_of_pos_left _ (Nat.pos_of_ne_zero hempty)
      exact ih path hitem hfirst
  | _ => exact List.nil_subset _

/-! ## Elements -/

/-- Elements of a type are read and written alike with either options. -/
structure SameElements (type : Datatype) (one other : ElementOptions) : Prop where
  decode : ∀ bytes, type.decode one bytes = type.decode other bytes
  decodeElements : ∀ count bytes,
    type.decodeElements one count bytes = type.decodeElements other count bytes
  encode : ∀ value, type.encode one value = type.encode other value
  encodeInto : ∀ value buffer,
    type.encodeInto one value buffer = type.encodeInto other value buffer
  encodeElements : ∀ values, type.encodeElements one values = type.encodeElements other values

theorem sameElements_of_agreeOn (h : AgreeOn one other type.fieldPaths) :
    SameElements type one other := by
  have hdecode : type.decode one = type.decode other := funext (decodeAt_congr "" type · h)
  have hencode : encodeAt one "" type = encodeAt other "" type := encodeAt_congr "" type h
  constructor
  · exact congrFun hdecode
  · intro count bytes
    rw [Datatype.decodeElements, Datatype.decodeElements, hdecode]
  · intro value
    rw [Datatype.encode, Datatype.encode, hencode]
  · intro value buffer
    rw [Datatype.encodeInto, Datatype.encodeInto, hencode]
  · intro values
    rw [Datatype.encodeElements, Datatype.encodeElements, hencode]

/-- **A selection is as good as all members** just if it has all leaf fields. -/
theorem sameElements_only_iff :
    SameElements type ⟨convertText, .only paths⟩ ⟨convertText, .all⟩ ↔ type.fieldPaths ⊆ paths := by
  constructor
  · intro h
    exact fieldPathsAt_subset_of_decodeAt "" type (Nat.le_of_eq (Bytes.length_zeros _).symm)
      (h.decode (Bytes.zeros type.size))
  · exact fun h => sameElements_of_agreeOn (agreeOn_only h)

/-- Nothing but an array is changed when arrays are taken off. -/
theorem leafBase_of_not_isArray (h : type.isArray = false) : type.leafBase = type := by
  cases type with
  | array base extents traits => cases h
  | _ => rfl

/-- An array has no leaves of its own. -/
theorem leafPaths_of_isArray (h : type.isArray = true) : type.leafPaths = [] := by
  cases type with
  | array base extents traits => rfl
  | _ => cases h

/-- **To select all leaves is to leave nothing out**, for a compound with any
arrays and compounds in it and for anything else that is no array. An array has
no leaves, and to select none is to leave out all leaf fields of its items, if
there are any. The leaves of what is left when arrays are taken off are enough
for every type. -/
theorem sameElements_leafPaths_iff (type : Datatype) (convertText : Bool) :
    (SameElements type ⟨convertText, .only type.leafPaths⟩ ⟨convertText, .all⟩ ↔
        (type.isArray = true → type.fieldPaths = [])) ∧
      SameElements type ⟨convertText, .only type.leafBase.leafPaths⟩ ⟨convertText, .all⟩ := by
  have hbase : type.fieldPaths ⊆ type.leafBase.leafPaths := fieldPathsAt_subset "" type
  refine ⟨sameElements_only_iff.trans ?_, sameElements_only_iff.2 hbase⟩
  cases harray : type.isArray with
  | true =>
    rw [leafPaths_of_isArray harray]
    exact ⟨fun h _ => List.eq_nil_of_subset_nil h, fun h => List.subset_nil.2 (h rfl)⟩
  | false =>
    rw [leafBase_of_not_isArray harray] at hbase
    exact ⟨fun _ h => absurd h (by decide), fun _ => hbase⟩

/-- The items of an array of compounds are read without their fields. -/
example :
    let type := arrayOf (ofMembers [("x", ofInteger 1 false)]) [2]
    type.leafPaths = [] ∧ type.fieldPaths = ["x"] ∧
      type.decode { members := .only type.leafPaths } [1, 2] =
        .array [.compound [], .compound []] := by
  refine ⟨rfl, rfl, rfl⟩

end Datatype

end TypedAttr
