import TypedAttr.Proofs.Element.Slots
/-!
# Selecting members is projecting values

Selecting members changes what a value holds and nothing else. `prune` drops
from a value the fields of all members that were not selected, at any depth;
decoding a selection is decoding everything and pruning the value, and
encoding a selection is encoding the pruned value with everything
(`decode_encode_only`).
-/

namespace TypedAttr

namespace Overlay

/-- A run over items that were mapped is a run that maps each of them. -/
theorem run_items_map {ι α : Type} (write : α → Bytes → Overlay) (step : Nat) (item : ι → α)
    (items : List ι) (slots : Bytes) :
    run write step (items.map item) slots = run (fun i => write (item i)) step items slots := by
  induction items generalizing slots with
  | nil => rfl
  | cons i rest ih => simp only [List.map_cons, run, funext ih]

end Overlay

namespace Datatype

/-! ## Pruning -/

/-- Whether the fields of a member at a path are kept: the path was
selected, or the member is a compound or an array of compounds. -/
def isKept (paths : List String) (path : String) (type : Datatype) : Bool :=
  type.leafBase.isCompound || path ∈ paths

mutual

/-- A value without the fields of members that were not selected, members
being named by their path below `path`. Fields that no member has are kept,
and so is what is not of the type's shape. -/
def prune (paths : List String) (path : String) : Datatype → Value → Value
  | .compound members _, .compound fields =>
    .compound (fields.filterMap (pruneField paths path members))
  | .array base _ _, .array items => .array (items.map (prune paths path base))
  | _, value => value

/-- A field among members, pruned, or nothing if it has the name of one that
was not selected. -/
def pruneField (paths : List String) (above : String) :
    List (String × Datatype) → String × Value → Option (String × Value)
  | [], field => some field
  | (name, type) :: rest, field =>
    if name = field.1 then
      if isKept paths (memberPath above name) type then
        some (name, prune paths (memberPath above name) type field.2)
      else none
    else pruneField paths above rest field

end

variable {paths : List String} {path above name : String} {type : Datatype}
variable {members : List (String × Datatype)}

/-- What is left of the field of a member. -/
theorem pruneField_of_mem (hnames : (names members).Nodup) (hmember : (name, type) ∈ members)
    (value : Value) :
    pruneField paths above members (name, value) =
      if isKept paths (memberPath above name) type then
        some (name, prune paths (memberPath above name) type value)
      else none := by
  induction members with
  | nil => cases hmember
  | cons member rest ih =>
    obtain ⟨hname, hrest⟩ := List.nodup_cons.1 hnames
    rcases List.mem_cons.1 hmember with rfl | hmember
    · rw [pruneField, if_pos rfl]
    · -- the members before it have other names
      have hother : member.1 ≠ name := by
        rintro rfl
        exact hname (List.mem_map.2 ⟨_, hmember, rfl⟩)
      rw [pruneField, if_neg hother, ih hrest hmember]

/-- A field that is left keeps its name. -/
theorem name_of_pruneField {field kept : String × Value}
    (h : pruneField paths above members field = some kept) : kept.1 = field.1 := by
  induction members with
  | nil =>
    obtain rfl : field = kept := by simpa [pruneField] using h
    rfl
  | cons member rest ih =>
    by_cases hname : member.1 = field.1
    · rw [pruneField, if_pos hname, Option.ite_none_right_eq_some] at h
      obtain rfl := Option.some.inj h.2
      exact hname
    · exact ih (by rwa [pruneField, if_neg hname] at h)

/-- **A member that was selected has its field in what is left**, pruned,
and any other member has none. -/
theorem lookup?_filterMap_pruneField (hnames : (names members).Nodup)
    (hmember : (name, type) ∈ members) (paths : List String) (above : String)
    (fields : List (String × Value)) :
    Value.lookup? name (fields.filterMap (pruneField paths above members)) =
      if isKept paths (memberPath above name) type then
        (Value.lookup? name fields).map (prune paths (memberPath above name) type)
      else none := by
  induction fields with
  | nil => simp [Value.lookup?]
  | cons field rest ih =>
    by_cases hfield : field.1 = name
    · obtain ⟨_, value⟩ := field
      obtain rfl : _ = name := hfield
      rw [List.filterMap_cons, pruneField_of_mem hnames hmember]
      cases hkept : isKept paths (memberPath above _) type with
      | true => simp [Value.lookup?]
      | false => simpa [hkept] using ih
    · -- a field of another name is passed over, be it left or not
      have hskip : Value.lookup? name (field :: rest) = Value.lookup? name rest := by
        simp [Value.lookup?, hfield]
      rw [hskip, ← ih, List.filterMap_cons]
      cases hkept : pruneField paths above members field with
      | none => rfl
      | some kept => simp [Value.lookup?, name_of_pruneField hkept, hfield]

variable {convertText : Bool}

/-- With everything, every member takes part. -/
theorem takesPart_all (path : String) (type : Datatype) :
    takesPart ⟨convertText, .all⟩ path type = true :=
  Bool.or_true _

/-- With a selection, those whose fields are kept do. -/
theorem takesPart_only (convertText : Bool) (paths : List String) (path : String)
    (type : Datatype) :
    takesPart ⟨convertText, .only paths⟩ path type = isKept paths path type :=
  rfl

/-! ## Decoding -/

/-- The fields of a selection are those of all members, pruned. -/
theorem decodeMembers_only (hnames : (names members).Nodup)
    (hmembers : ∀ member ∈ members, ∀ path bytes,
      decodeAt ⟨convertText, .only paths⟩ path member.2 bytes =
        prune paths path member.2 (decodeAt ⟨convertText, .all⟩ path member.2 bytes))
    {rest : List (String × Datatype)} (hrest : rest ⊆ members) (bytes : Bytes) :
    decodeMembers ⟨convertText, .only paths⟩ above rest bytes =
      (decodeMembers ⟨convertText, .all⟩ above rest bytes).filterMap
        (pruneField paths above members) := by
  induction rest generalizing bytes with
  | nil => rfl
  | cons member rest ih =>
    obtain ⟨name, type⟩ := member
    obtain ⟨hmember, hrest⟩ := List.cons_subset.1 hrest
    rw [decodeMembers_taken (takesPart_all _ _), List.filterMap_cons,
      pruneField_of_mem hnames hmember, ← takesPart_only convertText]
    cases htakes : takesPart ⟨convertText, .only paths⟩ (memberPath above name) type with
    | true =>
      have hvalue := hmembers _ hmember (memberPath above name) bytes
      rw [decodeMembers_taken htakes, hvalue, ih hrest]
      rfl
    | false =>
      rw [decodeMembers_left htakes, ih hrest]
      rfl

/-- **Decoding a selection is decoding everything and pruning**, whatever
the bytes. -/
theorem decodeAt_only (htype : type.hasDistinctNames = true) (path : String) (bytes : Bytes) :
    decodeAt ⟨convertText, .only paths⟩ path type bytes =
      prune paths path type (decodeAt ⟨convertText, .all⟩ path type bytes) := by
  induction type generalizing path bytes with
  | compound members traits ih =>
    obtain ⟨hnames, hmembers⟩ := hasDistinctNames_compound.1 htype
    have hfields : ∀ slot, decodeMembers ⟨convertText, .only paths⟩ path members slot =
        (decodeMembers ⟨convertText, .all⟩ path members slot).filterMap
          (pruneField paths path members) :=
      decodeMembers_only hnames
        (fun member hmember => ih member hmember (hmembers member hmember)) (List.Subset.refl _)
    simp only [decodeAt, readSlot, hfields]
    split <;> rfl
  | array base extents traits ih =>
    have hitems := ih (hasDistinctNames_array.symm.trans htype) path
    simp only [decodeAt, readSlot, hitems]
    split
    · rfl
    · simp only [prune, List.map_map, Function.comp_def]
  -- a leaf has no members to select
  | fixedText size traits => rfl
  | integer | float | varText | bitfield | blob | time | noClass | sequence | enumeration
  | reference => simp only [decodeAt, prune]

/-! ## Encoding -/

/-- The members of a selection are encoded as all members are, from the
fields that are left. -/
theorem encodeMembers_only (hnames : (names members).Nodup)
    (hmembers : ∀ member ∈ members, ∀ path value slot,
      encodeAt ⟨convertText, .only paths⟩ path member.2 value slot =
        encodeAt ⟨convertText, .all⟩ path member.2 (prune paths path member.2 value) slot)
    (fields : List (String × Value)) {rest : List (String × Datatype)} (hrest : rest ⊆ members)
    (slot : Bytes) :
    encodeMembers ⟨convertText, .only paths⟩ above fields rest slot =
      encodeMembers ⟨convertText, .all⟩ above (fields.filterMap (pruneField paths above members))
        rest slot := by
  induction rest generalizing slot with
  | nil => rfl
  | cons member rest ih =>
    obtain ⟨name, type⟩ := member
    obtain ⟨hmember, hrest⟩ := List.cons_subset.1 hrest
    have hfield := lookup?_filterMap_pruneField hnames hmember paths above fields
    cases hkept : isKept paths (memberPath above name) type with
    | true =>
      rw [hkept, if_pos rfl] at hfield
      simp only [isKept] at hkept
      simp only [encodeMembers, funext (ih hrest), hfield, MemberSelection.includes, hkept,
        Bool.or_true, if_true]
      -- a member without a field has none after pruning either
      cases Value.lookup? name fields with
      | none => rfl
      | some value => simp only [Option.map_some, hmembers _ hmember]
    | false =>
      rw [hkept, if_neg Bool.false_ne_true] at hfield
      simp only [isKept] at hkept
      simp only [encodeMembers, funext (ih hrest), hfield, MemberSelection.includes, hkept,
        Bool.or_true, if_true, Bool.false_eq_true, if_false]

/-- **Encoding a selection is encoding what is left with everything**,
whatever the value and whatever was in the slot. -/
theorem encodeAt_only (htype : type.hasDistinctNames = true) (path : String) (value : Value)
    (slot : Bytes) :
    encodeAt ⟨convertText, .only paths⟩ path type value slot =
      encodeAt ⟨convertText, .all⟩ path type (prune paths path type value) slot := by
  induction type generalizing path value slot with
  | compound members traits ih =>
    obtain ⟨hnames, hmembers⟩ := hasDistinctNames_compound.1 htype
    cases value with
    | compound fields =>
      rw [prune, encodeAt, encodeAt, settle?_eq_none rfl rfl rfl, settle?_eq_none rfl rfl rfl]
      exact encodeMembers_only hnames
        (fun member hmember => ih member hmember (hmembers member hmember)) fields
        (List.Subset.refl _) slot
    | _ => simp only [encodeAt, prune]
  | array base extents traits ih =>
    have hitems : encodeAt ⟨convertText, .only paths⟩ path base = fun value =>
        encodeAt ⟨convertText, .all⟩ path base (prune paths path base value) := by
      funext value slot
      exact ih (hasDistinctNames_array.symm.trans htype) path value slot
    cases value with
    | array items =>
      rw [prune, encodeAt, encodeAt, settle?_eq_none rfl rfl rfl, settle?_eq_none rfl rfl rfl]
      simp only [List.length_map, hitems, Overlay.run_items_map]
    | _ => simp only [encodeAt, prune]
  | integer | float | fixedText | varText | bitfield | blob | time | noClass | sequence
  | enumeration | reference => simp only [encodeAt, prune]

/-- **Selecting members is projecting values.** Decoding a selection gives
what decoding everything gives, pruned; and encoding a selection gives the
bytes, or the error, of encoding the pruned value with everything. -/
theorem decode_encode_only (htype : type.hasDistinctNames = true) (convertText : Bool)
    (paths : List String) :
    let all : ElementOptions := { convertText := convertText, members := .all }
    let only : ElementOptions := { convertText := convertText, members := .only paths }
    (∀ bytes, type.decode only bytes = type.prune paths "" (type.decode all bytes)) ∧
      ∀ value, type.encode only value = type.encode all (type.prune paths "" value) := by
  intro all only
  refine ⟨fun bytes => decodeAt_only htype "" bytes, fun value => ?_⟩
  rw [encode, encode, encodeAt_only htype]

/-- A record of which one leaf is kept: the other number goes, and so does
the other member of every item in the array below; a field that no member
has stays. -/
theorem decode_encode_only_record :
    let item := ofMembers [("x", ofInteger 1 false), ("y", ofInteger 1 false)]
    let type := ofMembers [("id", ofInteger 1 false), ("items", arrayOf item [2])]
    let byte (n : BitVec 8) : Value := .int ⟨.one, false⟩ n
    let all : ElementOptions := { members := .all }
    let only : ElementOptions := { members := .only ["items.y"] }
    type.hasDistinctNames = true ∧
      type.decode only [1, 2, 3, 4, 5] = .compound
        [("items", .array [.compound [("y", byte 3)], .compound [("y", byte 5)]])] ∧
      type.encode only (.compound [("id", .text "no number"), ("items", .array
          [.compound [("y", byte 3)], .compound [("x", byte 4), ("z", byte 9)]])]) =
        type.encode all (.compound
          [("items", .array [.compound [("y", byte 3)], .compound [("z", byte 9)]])]) := by
  intro item type byte all only
  have htype : type.hasDistinctNames = true := by decide
  have honly := decode_encode_only htype true ["items.y"]
  exact ⟨htype, (honly.1 _).trans rfl, (honly.2 _).trans rfl⟩

end Datatype

end TypedAttr
