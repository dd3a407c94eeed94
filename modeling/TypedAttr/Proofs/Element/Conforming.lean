import TypedAttr.Proofs.Element.Leaf
/-!
# Values that fit their type

A value that conforms to a datatype comes back when it is encoded and
decoded again (`comesBack_of_conforms`). `Conforms` says which values
those are: for each leaf what its slot can hold without loss, for an array
as many conforming items as its grid has places, and for a compound one
conforming field for every member that takes part, in declared order.
-/

namespace TypedAttr

namespace Datatype

mutual

/-- The values that a type's slot can hold without loss, members being named
by their path below a path. -/
inductive Conforms (options : ElementOptions) : (path : String) → Datatype → Value → Prop
  | integer {path : String} (kind : IntKind) (word : BitVec kind.bits) (traits : Traits) :
    Conforms options path (.integer kind.size.bytes kind.signed traits) (.int kind word)
  | float {path : String} (format : FloatFormat) (pattern : BitVec format.bits) (traits : Traits)
    (hquad : format ≠ .quad) :
    Conforms options path (.float format.bytes traits) (.float format pattern)
  | enumerated {path : String} (base : Datatype) (values : List (String × Int)) (traits : Traits)
    (size : WordSize) (n : Int) (hsize : base.size = size.bytes)
    (hfits : IntKind.fits ⟨size, base.isSigned⟩ n = true) :
    Conforms options path (.enumeration base values traits)
      (.enumerated n (nameOfValue? (.enumeration base values traits) n))
  | bitfield {path : String} (raw : Bytes) (traits : Traits) :
    Conforms options path (.bitfield raw.length traits) (.bytes raw)
  /-- Text that is read as text, and can be told apart from what fills up
  its slot. -/
  | text {path : String} (size : Nat) (traits : Traits) (content : String)
    (hconvert : options.convertText = true)
    (hholds : traits.padding.Holds size (Text.utf8 content)) :
    Conforms options path (.fixedText size traits) (.text content)
  /-- Text that is left as bytes, with its end if it has one. -/
  | rawText {path : String} (raw : Bytes) (traits : Traits)
    (hconvert : options.convertText = false)
    (hend : traits.padding = .terminated → ∀ b ∈ raw.getLast?, b = 0) :
    Conforms options path (.fixedText raw.length traits) (.bytes raw)
  | address {path : String} (address : Address) (traits : Traits) :
    Conforms options path (.reference .object traits) (.address address)
  | token {path : String} (flavor : ReferenceFlavor) (traits : Traits) (token : Token)
    (hflavor : flavor ≠ .object) (hsize : token.size = flavor.tokenSize) :
    Conforms options path (.reference flavor traits) (.token token)
  | array {path : String} (base : Datatype) (extents : List Nat) (traits : Traits)
    (items : List Value) (hcount : items.length = gridSize extents)
    (hitems : ∀ item ∈ items, Conforms options path base item) :
    Conforms options path (.array base extents traits) (.array items)
  | compound {path : String} (members : List (String × Datatype)) (traits : Traits)
    (fields : List (String × Value)) (hnames : (names members).Nodup)
    (hfields : MembersConform options path members fields) :
    Conforms options path (.compound members traits) (.compound fields)

/-- One conforming field for every member that takes part, in the members'
order, and none for the others. -/
inductive MembersConform (options : ElementOptions) :
    (above : String) → List (String × Datatype) → List (String × Value) → Prop
  | nil {above : String} : MembersConform options above [] []
  | taken {above name : String} {type : Datatype} {value : Value}
    {rest : List (String × Datatype)} {fields : List (String × Value)}
    (htakes : takesPart options (memberPath above name) type = true)
    (hvalue : Conforms options (memberPath above name) type value)
    (hrest : MembersConform options above rest fields) :
    MembersConform options above ((name, type) :: rest) ((name, value) :: fields)
  | left {above name : String} {type : Datatype} {rest : List (String × Datatype)}
    {fields : List (String × Value)}
    (htakes : takesPart options (memberPath above name) type = false)
    (hrest : MembersConform options above rest fields) :
    MembersConform options above ((name, type) :: rest) fields

end

/-! ## Values that come back -/

/-- The slot that encoding leaves behind. -/
def slotOf (options : ElementOptions) (path : String) (type : Datatype) (value : Value) : Bytes :=
  (encodeAt options path type value (Bytes.zeros type.size)).slot

/-- A value that is written to a slot of the type's size, and read from it
again. -/
structure ComesBack (options : ElementOptions) (path : String) (type : Datatype)
    (value : Value) : Prop where
  written : encodeAt options path type value (Bytes.zeros type.size) =
    .untouched (slotOf options path type value)
  length : (slotOf options path type value).length = type.size
  read : decodeAt options path type (slotOf options path type value) = value

variable {options : ElementOptions} {path : String} {type : Datatype}

/-- A slot to which a value is written and from which it is read is the one
that encoding leaves. -/
theorem ComesBack.of_slot {value : Value} (slot : Bytes) (hlength : slot.length = type.size)
    (hwritten : encodeAt options path type value (Bytes.zeros type.size) = .untouched slot)
    (hread : decodeAt options path type slot = value) : ComesBack options path type value := by
  have hslot : slotOf options path type value = slot := by
    rw [slotOf, hwritten]
    rfl
  exact ⟨hslot ▸ hwritten, hslot ▸ hlength, hslot ▸ hread⟩

/-! ## Leaves -/

theorem comesBack_integer (kind : IntKind) (word : BitVec kind.bits) (traits : Traits) :
    ComesBack options path (.integer kind.size.bytes kind.signed traits) (.int kind word) := by
  have hlength := traits.order.length_writeWord word
  refine .of_slot (traits.order.writeWord word) hlength ?_ ?_
  · rw [encodeAt, settle?_eq_none rfl rfl rfl]
    exact writeInteger_toInt kind word (Bytes.length_zeros _)
  · rw [decodeAt, readSlot_of_length hlength]
    exact decodeInteger_writeWord traits.order word

theorem comesBack_float {format : FloatFormat} (hquad : format ≠ .quad)
    (pattern : BitVec format.bits) (traits : Traits) :
    ComesBack options path (.float format.bytes traits) (.float format pattern) := by
  have hlength := traits.order.length_writeWord pattern
  have hwritten : isNeverWritten (.float format.bytes traits) = false := by
    cases format with
    | quad => exact absurd rfl hquad
    | half | single | double => rfl
  have hwide : (Value.float format pattern).isWideFloat = false := by
    cases format with
    | quad => exact absurd rfl hquad
    | half | single | double => rfl
  refine .of_slot (traits.order.writeWord pattern) hlength ?_ ?_
  · rw [encodeAt, settle?_eq_none hwritten hwide rfl]
    exact encodeFloat_pattern hquad pattern (Bytes.length_zeros _)
  · rw [decodeAt, readSlot_of_length hlength]
    exact decodeFloat_writeWord traits.order pattern

theorem comesBack_enumerated {base : Datatype} {size : WordSize} {n : Int}
    (hsize : base.size = size.bytes) (hfits : IntKind.fits ⟨size, base.isSigned⟩ n = true)
    (values : List (String × Int)) (traits : Traits) :
    ComesBack options path (.enumeration base values traits)
      (.enumerated n (nameOfValue? (.enumeration base values traits) n)) := by
  let kind : IntKind := ⟨size, base.isSigned⟩
  have hlength : (traits.order.writeWord (BitVec.ofInt kind.bits n)).length = base.size :=
    (traits.order.length_writeWord (BitVec.ofInt kind.bits n)).trans hsize.symm
  refine .of_slot (traits.order.writeWord (BitVec.ofInt kind.bits n)) hlength ?_ ?_
  · rw [encodeAt, settle?_eq_none rfl rfl rfl]
    refine writeInteger_of_ofInt? (kind.ofInt?_of_fits hfits) ?_
    rw [Bytes.length_zeros]
    exact hsize
  · rw [decodeAt, readSlot_of_length hlength, decodeEnumerated_of_length (hlength.trans hsize),
      ByteOrder.readWord_writeWord, kind.toInt_ofInt hfits]
    rfl

theorem comesBack_text {size : Nat} {traits : Traits} {content : String}
    (hconvert : options.convertText = true)
    (hholds : traits.padding.Holds size (Text.utf8 content)) :
    ComesBack options path (.fixedText size traits) (.text content) := by
  have hlength := traits.padding.length_fill (Text.utf8 content) size
  refine .of_slot (traits.padding.fill (Text.utf8 content) size) hlength ?_ ?_
  · rw [encodeAt, settle?_eq_none rfl rfl rfl, encodeText, Bytes.length_zeros]
    rfl
  · rw [decodeAt, readSlot_of_length hlength]
    simp only [decodeText, hconvert, if_true, Padding.text?, Padding.trim_fill hholds,
      Text.ofUtf8?_utf8]

theorem comesBack_rawText {raw : Bytes} {traits : Traits} (hconvert : options.convertText = false)
    (hend : traits.padding = .terminated → ∀ b ∈ raw.getLast?, b = 0) :
    ComesBack options path (.fixedText raw.length traits) (.bytes raw) := by
  refine .of_slot raw rfl ?_ ?_
  · refine (encodeAt_rawText options path raw traits).trans ?_
    rw [Padding.finish_of_getLast hend]
  · rw [decodeAt, readSlot_of_length rfl]
    simp only [decodeText, hconvert, Bool.false_eq_true, if_false]

theorem comesBack_bitfield (raw : Bytes) (traits : Traits) :
    ComesBack options path (.bitfield raw.length traits) (.bytes raw) :=
  .of_slot raw rfl (encodeAt_bitfield rfl traits) (decodeAt_bitfield rfl traits)

theorem comesBack_address (address : Address) (traits : Traits) :
    ComesBack options path (.reference .object traits) (.address address) := by
  have hlength : (traits.order.writeWord address).length = ReferenceFlavor.object.tokenSize :=
    traits.order.length_writeWord address
  refine .of_slot (traits.order.writeWord address) hlength ?_ ?_
  · rw [encodeAt, settle?_eq_none rfl rfl rfl]
    exact encodeReference_address address (Bytes.length_zeros _)
  · rw [decodeAt, readSlot_of_length hlength]
    exact congrArg Value.address (ByteOrder.readWord_writeWord _ _)

theorem comesBack_token {flavor : ReferenceFlavor} {token : Token} (hflavor : flavor ≠ .object)
    (hsize : token.size = flavor.tokenSize) (traits : Traits) :
    ComesBack options path (.reference flavor traits) (.token token) := by
  refine .of_slot token.bytes hsize ?_ ?_
  · rw [encodeAt, settle?_eq_none rfl rfl rfl]
    exact encodeReference_token (hsize.trans (Bytes.length_zeros _).symm)
  · rw [decodeAt, readSlot_of_length hsize]
    cases flavor with
    | object => exact absurd rfl hflavor
    | region | standard => rfl

/-! ## Items back to back -/

/-- Items that come back are written one behind the other. -/
theorem run_of_comesBack {items : List Value} {count : Nat} (hcount : items.length = count)
    (h : ∀ item ∈ items, ComesBack options path type item) :
    Overlay.run (encodeAt options path type) type.size items (Bytes.zeros (count * type.size)) =
      .untouched (items.flatMap (slotOf options path type)) := by
  have hrun := Overlay.run_map hcount fun item hitem => (h item hitem).written
  rwa [List.map_id'] at hrun

/-- And each is read from its own place. -/
theorem decodeAt_drop_flatMap {items : List Value}
    (h : ∀ item ∈ items, ComesBack options path type item) {i : Nat} (hi : i < items.length) :
    decodeAt options path type
      ((items.flatMap (slotOf options path type)).drop (i * type.size)) = items[i] := by
  have hback := h items[i] (List.getElem_mem hi)
  rw [drop_flatMap (fun item hitem => (h item hitem).length), List.drop_eq_getElem_cons hi,
    List.flatMap_cons, decodeAt_append (Nat.le_of_eq hback.length.symm), hback.read]

theorem map_decodeAt_flatMap {items : List Value} {count : Nat} (hcount : items.length = count)
    (h : ∀ item ∈ items, ComesBack options path type item) :
    ((List.range count).map fun i => decodeAt options path type
      ((items.flatMap (slotOf options path type)).drop (i * type.size))) = items := by
  subst hcount
  refine List.ext_getElem (by simp) fun i _ hi => ?_
  rw [List.getElem_map, List.getElem_range]
  exact decodeAt_drop_flatMap h hi

/-! ## Trees -/

theorem comesBack_array {base : Datatype} {extents : List Nat} {items : List Value}
    (hcount : items.length = gridSize extents)
    (h : ∀ item ∈ items, ComesBack options path base item) (traits : Traits) :
    ComesBack options path (.array base extents traits) (.array items) := by
  have hlength : (items.flatMap (slotOf options path base)).length =
      gridSize extents * base.size := by
    rw [length_flatMap fun item hitem => (h item hitem).length, hcount]
  refine .of_slot (items.flatMap (slotOf options path base)) hlength ?_ ?_
  · rw [encodeAt, settle?_eq_none rfl rfl rfl]
    simp only [hcount, if_true]
    exact run_of_comesBack hcount h
  · rw [decodeAt, readSlot_of_length hlength]
    exact congrArg Value.array (map_decodeAt_flatMap hcount h)

/-- **Fields that conform to members** are written behind one another and
read again. Fields of other names may stand before them. -/
theorem exists_slot_of_membersConform {above : String} {members : List (String × Datatype)}
    (hnames : (names members).Nodup)
    (hmember : ∀ member ∈ members, ∀ {path : String} {value : Value},
      Conforms options path member.2 value → ComesBack options path member.2 value)
    {fields : List (String × Value)} (hfields : MembersConform options above members fields)
    (before : List (String × Value)) (hbefore : Apart before members) :
    ∃ slot : Bytes, slot.length = sizeOfMembers members ∧
      encodeMembers options above (before ++ fields) members (Bytes.zeros (sizeOfMembers members)) =
        .untouched slot ∧
      decodeMembers options above members slot = fields := by
  induction members generalizing fields before with
  | nil =>
    cases hfields
    exact ⟨[], rfl, rfl, rfl⟩
  | cons member rest ih =>
    obtain ⟨name, type⟩ := member
    obtain ⟨hname, hrest⟩ := List.nodup_cons.1 hnames
    have hmembers := fun member hmem => @hmember member (List.mem_cons_of_mem _ hmem)
    cases hfields with
    -- a member that takes no part has zeros for a slot
    | left htakes hfields =>
      obtain ⟨after, hlength, hwritten, hread⟩ := ih hrest hmembers hfields before hbefore.tail
      refine ⟨Bytes.zeros type.size ++ after, ?_, encodeMembers_left htakes hwritten, ?_⟩
      · rw [List.length_append, Bytes.length_zeros, hlength, sizeOfMembers]
      · rw [decodeMembers_left htakes, List.drop_left' (Bytes.length_zeros _), hread]
    | @taken _ _ _ value _ fields htakes hvalue hfields =>
      have hback := @hmember (name, type) (by simp) _ _ hvalue
      -- the field of this member stands before those of the others
      have hapart := hbefore.tail.snoc hname value
      obtain ⟨after, hlength, hwritten, hread⟩ := ih hrest hmembers hfields _ hapart
      rw [List.append_assoc, List.singleton_append] at hwritten
      refine ⟨slotOf options (memberPath above name) type value ++ after, ?_,
        encodeMembers_taken htakes hbefore.lookup?_append hback.written hwritten, ?_⟩
      · rw [List.length_append, hback.length, hlength, sizeOfMembers]
      · rw [decodeMembers_taken htakes, decodeAt_append (Nat.le_of_eq hback.length.symm),
          hback.read, List.drop_left' hback.length, hread]

theorem comesBack_compound {members : List (String × Datatype)} {fields : List (String × Value)}
    (hnames : (names members).Nodup)
    (hmember : ∀ member ∈ members, ∀ {path : String} {value : Value},
      Conforms options path member.2 value → ComesBack options path member.2 value)
    (hfields : MembersConform options path members fields) (traits : Traits) :
    ComesBack options path (.compound members traits) (.compound fields) := by
  obtain ⟨slot, hlength, hwritten, hread⟩ :=
    exists_slot_of_membersConform hnames hmember hfields [] (.nil _)
  refine .of_slot slot hlength ?_ ?_
  · rw [encodeAt, settle?_eq_none rfl rfl rfl]
    exact hwritten
  · rw [decodeAt, readSlot_of_length hlength, hread]

/-- **Values that conform come back**, anywhere in a tree. -/
theorem comesBack_of_conforms {type : Datatype} {path : String} {value : Value}
    (h : Conforms options path type value) : ComesBack options path type value := by
  induction type generalizing path value with
  | integer size signed traits =>
    obtain ⟨kind, word⟩ := h
    exact comesBack_integer kind word traits
  | float size traits =>
    obtain _ | ⟨format, pattern, _, hquad⟩ := h
    exact comesBack_float hquad pattern traits
  | fixedText size traits =>
    cases h with
    | text _ _ content hconvert hholds => exact comesBack_text hconvert hholds
    | rawText raw _ hconvert hend => exact comesBack_rawText hconvert hend
  | bitfield size traits =>
    cases h with
    | bitfield raw => exact comesBack_bitfield raw traits
  -- no value conforms to a type without values
  | varText | blob | time | noClass | sequence => cases h
  | compound members traits ih =>
    cases h with
    | compound _ _ fields hnames hfields => exact comesBack_compound hnames ih hfields traits
  | array base extents traits ih =>
    cases h with
    | array _ _ _ items hcount hitems =>
      exact comesBack_array hcount (fun item hitem => ih (hitems item hitem)) traits
  | enumeration base values traits =>
    cases h with
    | enumerated _ _ _ size n hsize hfits => exact comesBack_enumerated hsize hfits values traits
  | reference flavor traits =>
    cases h with
    | address address => exact comesBack_address address traits
    | token _ _ token hflavor hsize => exact comesBack_token hflavor hsize traits

/-- **A value to bytes and back to a value.** Every value that conforms to a
type is encoded, into as many bytes as the type has, and is what decoding
gives; and so are any number of them back to back. -/
theorem decode_encode_of_conforms (options : ElementOptions) (type : Datatype) :
    (∀ value, Conforms options "" type value →
      ∃ bytes, type.encode options value = .ok bytes ∧ bytes.length = type.size ∧
        type.decode options bytes = value) ∧
    ∀ values : List Value, (∀ value ∈ values, Conforms options "" type value) →
      ∃ bytes, type.encodeElements options values = .ok bytes ∧
        bytes.length = values.length * type.size ∧
        type.decodeElements options values.length bytes = values := by
  constructor
  · intro value h
    have hback := comesBack_of_conforms h
    refine ⟨slotOf options "" type value, ?_, hback.length, hback.read⟩
    rw [encode, hback.written, Overlay.toExcept_untouched]
  · intro values h
    have hback := fun value hvalue => comesBack_of_conforms (h value hvalue)
    have hlength := length_flatMap fun value hvalue => (hback value hvalue).length
    refine ⟨values.flatMap (slotOf options "" type), ?_, hlength, ?_⟩
    · rw [encodeElements, Nat.mul_comm, run_of_comesBack rfl hback, Overlay.toExcept_untouched]
    · rw [decodeElements]
      refine (List.map_congr_left fun i hi => ?_).trans (map_decodeAt_flatMap rfl hback)
      -- no element starts past the end
      have hstart := Nat.mul_le_mul_right type.size (Nat.le_of_lt (List.mem_range.1 hi))
      rw [if_neg (by omega), decode]

/-- A record with a number in its own byte order, a text shorter than its
slot, a member that was not selected, and an array of compounds. -/
theorem decode_encode_record :
    let state := enumerationOf (ofInteger 1 true) [("on", 1), ("off", -1)]
    let type := ofMembers
      [("id", (ofInteger 2 true).withOrder .big), ("name", (ofFixedText 4).withPadding .spaces),
        ("unused", ofBlob 3),
        ("pair", arrayOf (ofMembers [("state", state), ("link", referenceOf .region)]) [1])]
    let options : ElementOptions := { members := .only ["id", "name", "pair.state"] }
    let value : Value := .compound
      [("id", .int ⟨.two, true⟩ 258), ("name", .text "é"),
        ("pair", .array [.compound [("state", .enumerated (-1) (some "off"))]])]
    Conforms options "" type value ∧
      ∃ bytes, type.encodeElements options [value, value] = .ok bytes ∧
        bytes.length = 2 * type.size ∧ type.decodeElements options 2 bytes = [value, value] := by
  intro state type options value
  have hstate : Conforms options "pair.state" state (.enumerated (-1) (some "off")) :=
    .enumerated (ofInteger 1 true) _ _ .one (-1) rfl (by decide)
  have hpair : Conforms options "pair" (arrayOf (ofMembers
      [("state", state), ("link", referenceOf .region)]) [1])
      (.array [.compound [("state", .enumerated (-1) (some "off"))]]) := by
    refine .array _ _ _ _ rfl fun item hitem => ?_
    rw [List.mem_singleton.1 hitem]
    exact .compound _ _ _ (by decide) (.taken (by decide) hstate (.left (by decide) .nil))
  have hvalue : Conforms options "" type value :=
    .compound _ _ _ (by decide)
      (.taken (by decide) (.integer ⟨.two, true⟩ 258 _)
        (.taken (by decide) (.text 4 _ "é" rfl ⟨by decide +kernel, by decide +kernel⟩)
          (.left (by decide) (.taken (by decide) hpair .nil))))
  refine ⟨hvalue, (decode_encode_of_conforms options type).2 [value, value] fun item hitem => ?_⟩
  simp only [List.mem_cons, List.not_mem_nil, or_false, or_self] at hitem
  exact hitem ▸ hvalue

end Datatype

end TypedAttr
