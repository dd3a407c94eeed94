import TypedAttr.Proofs.Element.Leaf
/-!
# Normal forms of elements

Decoding an element and encoding the value gives an element that can differ
from the first: what does not convert becomes zeros, members that take no
part become zeros, and text is filled up anew. `normalForm` says what each
slot becomes without speaking of values, and `encodeAt_decodeAt` that this
is what comes back, whatever the tree and whatever the bytes.
-/

namespace TypedAttr

namespace Datatype

/-! ## What a slot becomes -/

/-- A slot of a size that converts as it is, any other as zeros. -/
def keepSized (sizes : List Nat) (slot : Bytes) : Bytes :=
  if slot.length ∈ sizes then slot else Bytes.zeros slot.length

/-- A text slot as it is or, if it is read as text, its text followed by
fillers. A terminated slot gets its last byte made a zero in either case. -/
def normalText (options : ElementOptions) (padding : Padding) (slot : Bytes) : Bytes :=
  padding.finish <|
    if options.convertText && (padding.text? slot).isSome then
      padding.trim slot ++
        List.replicate (slot.length - (padding.trim slot).length) padding.filler
    else slot

mutual

/-- What a slot becomes, members being named by their path below `path`. -/
def normalFormAt (options : ElementOptions) (path : String) : Datatype → Bytes → Bytes
  | .integer .., slot => keepSized [1, 2, 4, 8] slot
  | .float .., slot => keepSized [2, 4, 8] slot
  | .enumeration .., slot => keepSized [1, 2, 4, 8] slot
  | .fixedText _ traits, slot => normalText options traits.padding slot
  | .bitfield .., slot => slot
  | .reference .., slot => slot
  | .blob .., slot | .time .., slot | .noClass .., slot | .varText .., slot | .sequence .., slot =>
    Bytes.zeros slot.length
  | .compound members _, slot => normalMembers options path members slot
  | .array base extents _, slot =>
    (List.range (gridSize extents)).flatMap fun i =>
      normalFormAt options path base ((slot.drop (i * base.size)).take base.size)

/-- What the slots of packed members become, one behind the other. -/
def normalMembers (options : ElementOptions) (above : String) :
    List (String × Datatype) → Bytes → Bytes
  | [], _ => []
  | (name, type) :: rest, slot =>
    (if takesPart options (memberPath above name) type then
      normalFormAt options (memberPath above name) type (slot.take type.size)
    else Bytes.zeros type.size) ++ normalMembers options above rest (slot.drop type.size)

end

/-- What an element becomes. -/
def normalForm (type : Datatype) (options : ElementOptions) (bytes : Bytes) : Bytes :=
  normalFormAt options "" type bytes

/-! ## Leaves

Each leaf into a fresh slot, after it was decoded. -/

variable {options : ElementOptions} {path : String}

/-- A slot of a word's size is kept. -/
theorem keepSized_of_some {slot : Bytes} {size : WordSize}
    (h : WordSize.ofBytes? slot.length = some size) : keepSized [1, 2, 4, 8] slot = slot := by
  rw [keepSized, if_pos]
  rw [← WordSize.isSome_ofBytes?, h]
  rfl

/-- A slot of no word's size is not. -/
theorem keepSized_of_none {slot : Bytes} (h : WordSize.ofBytes? slot.length = none) :
    keepSized [1, 2, 4, 8] slot = Bytes.zeros slot.length := by
  rw [keepSized, if_neg]
  rw [← WordSize.isSome_ofBytes?, h]
  simp

theorem encodeAt_decodeInteger {size : Nat} {signed : Bool} {traits : Traits} {slot : Bytes}
    (hlength : slot.length = size) :
    encodeAt options path (.integer size signed traits) (decodeInteger traits.order signed slot)
      (Bytes.zeros size) = .untouched (keepSized [1, 2, 4, 8] slot) := by
  subst hlength
  cases hsize : WordSize.ofBytes? slot.length with
  | none =>
    rw [decodeInteger_of_none hsize, encodeAt, settle?_failure rfl, keepSized_of_none hsize,
      Bytes.length_zeros]
  | some word =>
    have hbytes := WordSize.bytes_of_ofBytes? hsize
    rw [decodeInteger_of_length hbytes.symm, encodeAt, settle?_eq_none rfl rfl rfl,
      keepSized_of_some hsize]
    exact writeInteger_readWord hbytes.symm

theorem encodeAt_decodeFloat {size : Nat} {traits : Traits} {slot : Bytes}
    (hlength : slot.length = size) (hnarrow : size ≠ 16) :
    encodeAt options path (.float size traits) (decodeFloat traits.order slot)
      (Bytes.zeros size) = .untouched (keepSized [2, 4, 8] slot) := by
  subst hlength
  have hwritten : isNeverWritten (.float slot.length traits) = false := by
    simp [isNeverWritten, isWideFloat, isSequence, isVarText, hnarrow]
  cases hsize : FloatFormat.ofBytes? slot.length with
  | none =>
    rw [decodeFloat_of_none hsize, encodeAt, settle?_failure hwritten, keepSized,
      if_neg (FloatFormat.not_mem_of_ofBytes?_eq_none hsize), Bytes.length_zeros]
  | some format =>
    have hbytes := FloatFormat.bytes_of_ofBytes? hsize
    have hquad : format ≠ .quad := by
      rintro rfl
      exact hnarrow hbytes.symm
    -- formats other than the widest are written as the pattern that was read
    have hwide : (Value.float format (traits.order.readWord format.bytes slot)).isWideFloat
        = false := by
      cases format with
      | quad => exact absurd rfl hquad
      | half | single | double => rfl
    rw [decodeFloat_of_length hbytes.symm, encodeAt, settle?_eq_none hwritten hwide rfl, keepSized,
      if_pos (hbytes ▸ (FloatFormat.mem_writtenSizes format).2 hquad)]
    refine (encodeFloat_pattern hquad _ ?_).trans ?_
    · rw [Bytes.length_zeros, hbytes]
    · exact congrArg _ (ByteOrder.writeWord_readWord _ hbytes.symm)

theorem encodeAt_decodeText {size : Nat} {traits : Traits} {slot : Bytes}
    (hlength : slot.length = size) :
    encodeAt options path (.fixedText size traits) (decodeText options traits.padding slot)
      (Bytes.zeros size) = .untouched (normalText options traits.padding slot) := by
  subst hlength
  -- a slot that is left as bytes is filled with all of them
  have hbytes := encodeAt_rawText options path slot traits
  unfold decodeText normalText
  cases hconvert : options.convertText with
  | false => simpa using hbytes
  | true =>
    cases htext : traits.padding.text? slot with
    | none => simpa using hbytes
    | some text =>
      have hutf8 : Text.utf8 text = traits.padding.trim slot := Text.utf8_of_ofUtf8? htext
      have hle := traits.padding.length_trim_le slot
      simp only [if_true, Option.isSome_some, Bool.and_self]
      rw [encodeAt, settle?_eq_none rfl rfl rfl]
      simp only [encodeText, Bytes.length_zeros, hutf8]
      refine congrArg _ ((Padding.fill_eq_finish _ _ _).trans ?_)
      rw [List.take_of_length_le hle]
      rfl

theorem encodeAt_decodeEnumerated {base : Datatype} {values : List (String × Int)}
    {traits : Traits} {slot : Bytes} (hlength : slot.length = base.size) :
    encodeAt options path (.enumeration base values traits)
      (decodeEnumerated traits.order base.isSigned values slot) (Bytes.zeros base.size) =
        .untouched (keepSized [1, 2, 4, 8] slot) := by
  rw [← hlength]
  cases hsize : WordSize.ofBytes? slot.length with
  | none =>
    rw [decodeEnumerated_of_none hsize, encodeAt, settle?_failure rfl, keepSized_of_none hsize,
      Bytes.length_zeros]
  | some word =>
    have hbytes := WordSize.bytes_of_ofBytes? hsize
    rw [decodeEnumerated_of_length hbytes.symm, encodeAt, settle?_eq_none rfl rfl rfl,
      keepSized_of_some hsize]
    exact writeInteger_readWord hbytes.symm

theorem encodeAt_decodeReference {flavor : ReferenceFlavor} {traits : Traits} {slot : Bytes}
    (hlength : slot.length = flavor.tokenSize) :
    encodeAt options path (.reference flavor traits) (decodeReference traits.order flavor slot)
      (Bytes.zeros flavor.tokenSize) = .untouched slot := by
  rw [encodeAt]
  cases flavor with
  | object =>
    rw [decodeReference, settle?_eq_none rfl rfl rfl]
    refine (encodeReference_address _ (Bytes.length_zeros _)).trans ?_
    exact congrArg _ (ByteOrder.writeWord_readWord _ hlength)
  | region | standard =>
    rw [decodeReference, settle?_eq_none rfl rfl rfl]
    exact encodeReference_token (by rw [Bytes.length_zeros]; exact hlength)

/-! ## Trees -/

mutual

/-- Whether all that is decoded of a type can be encoded again: nothing that
is never written takes part, unless in arrays without items. Members are named
by their path below `path`. -/
def isWrittenAt (options : ElementOptions) (path : String) : Datatype → Bool
  | .compound members _ => areWrittenAt options path members
  | .array base extents _ => gridSize extents == 0 || isWrittenAt options path base
  | type => !type.isNeverWritten

/-- Whether that goes for all members that take part. -/
def areWrittenAt (options : ElementOptions) (above : String) : List (String × Datatype) → Bool
  | [] => true
  | (name, type) :: rest =>
    (!takesPart options (memberPath above name) type ||
      isWrittenAt options (memberPath above name) type) && areWrittenAt options above rest

end

theorem areWrittenAt_iff {above : String} {members : List (String × Datatype)} :
    areWrittenAt options above members = true ↔
      ∀ member ∈ members, takesPart options (memberPath above member.1) member.2 = true →
        isWrittenAt options (memberPath above member.1) member.2 = true := by
  induction members with
  | nil => simp [areWrittenAt]
  | cons member rest ih =>
    rw [areWrittenAt, Bool.and_eq_true, ih, List.forall_mem_cons]
    refine and_congr_left fun _ => ?_
    cases takesPart options (memberPath above member.1) member.2 <;> simp

/-- It goes for a tree in which nothing is never written. -/
theorem isWrittenAt_of_isWritable {type : Datatype} (h : type.isWritable = true) (path : String) :
    isWrittenAt options path type = true := by
  induction type generalizing path with
  | compound members traits ih =>
    rw [isWritable_compound] at h
    rw [isWrittenAt, areWrittenAt_iff]
    intro member hmember _
    exact ih member hmember (h member hmember) _
  | array base extents traits ih =>
    rw [isWritable_array] at h
    rw [isWrittenAt, ih h, Bool.or_true]
  | _ =>
    have hself := isNeverWritten_of_isWritable h
    simp [isWrittenAt, hself]

/-- **Members that are decoded and encoded again** become their normal
forms, if those that take part do. Fields of other names may stand before
theirs, as they do once the first members are behind. -/
theorem encodeMembers_decodeMembers {above : String} {members : List (String × Datatype)}
    (hnames : (names members).Nodup)
    (hmember : ∀ member ∈ members, takesPart options (memberPath above member.1) member.2 = true →
      ∀ {slot : Bytes}, slot.length = member.2.size →
        encodeAt options (memberPath above member.1) member.2
          (decodeAt options (memberPath above member.1) member.2 slot)
          (Bytes.zeros member.2.size) =
            .untouched (normalFormAt options (memberPath above member.1) member.2 slot))
    {bytes : Bytes} (hlength : bytes.length = sizeOfMembers members)
    (before : List (String × Value)) (hbefore : Apart before members) :
    encodeMembers options above (before ++ decodeMembers options above members bytes) members
      (Bytes.zeros (sizeOfMembers members)) =
        .untouched (normalMembers options above members bytes) := by
  induction members generalizing bytes before with
  | nil => rfl
  | cons member rest ih =>
    obtain ⟨name, type⟩ := member
    rw [sizeOfMembers] at hlength ⊢
    obtain ⟨hname, hrest⟩ := List.nodup_cons.1 hnames
    have hfits : type.size ≤ bytes.length := by omega
    have hlater : (bytes.drop type.size).length = sizeOfMembers rest := by
      rw [List.length_drop]
      omega
    have hmembers := fun member hmem => @hmember member (List.mem_cons_of_mem _ hmem)
    rw [normalMembers]
    cases htakes : takesPart options (memberPath above name) type with
    | false =>
      -- no field was made for it, and what stands before stays apart from the rest
      rw [decodeMembers_left htakes]
      exact encodeMembers_left htakes (ih hrest hmembers hlater before hbefore.tail)
    | true =>
      rw [decodeMembers_taken htakes]
      have hown : (bytes.take type.size).length = type.size := List.length_take_of_le hfits
      have hslot := @hmember (name, type) (by simp) htakes _ hown
      rw [decodeAt_take hfits] at hslot
      refine encodeMembers_taken htakes hbefore.lookup?_append hslot ?_
      -- the field of this member now stands before those of the others
      have hapart := hbefore.tail.snoc hname (decodeAt options (memberPath above name) type bytes)
      have htail := ih hrest hmembers hlater _ hapart
      rwa [List.append_assoc, List.singleton_append] at htail

/-- **An element that is decoded and encoded again**, anywhere in a tree. -/
theorem encodeAt_decodeAt_of_written {type : Datatype} (hnames : type.hasDistinctNames = true)
    {path : String} (hwritten : isWrittenAt options path type = true) {slot : Bytes}
    (hlength : slot.length = type.size) :
    encodeAt options path type (decodeAt options path type slot) (Bytes.zeros type.size) =
      .untouched (normalFormAt options path type slot) := by
  induction type generalizing path slot with
  | integer width signed traits =>
    rw [size] at hlength ⊢
    rw [decodeAt, readSlot_of_length hlength]
    exact encodeAt_decodeInteger hlength
  | float width traits =>
    have hnarrow : width ≠ 16 := by
      rintro rfl
      cases hwritten
    rw [size] at hlength ⊢
    rw [decodeAt, readSlot_of_length hlength]
    exact encodeAt_decodeFloat hlength hnarrow
  | fixedText width traits =>
    rw [size] at hlength ⊢
    rw [decodeAt, readSlot_of_length hlength]
    exact encodeAt_decodeText hlength
  | varText traits => cases hwritten
  | bitfield width traits =>
    rw [size] at hlength ⊢
    rw [decodeAt_bitfield hlength, encodeAt_bitfield hlength, normalFormAt]
  | blob width traits | time width traits | noClass traits =>
    rw [size] at hlength ⊢
    rw [decodeAt, readSlot_of_length hlength, encodeAt, settle?_failure rfl, normalFormAt, hlength,
      Bytes.length_zeros]
  | compound members traits ih =>
    rw [hasDistinctNames_compound] at hnames
    rw [isWrittenAt, areWrittenAt_iff] at hwritten
    rw [size] at hlength ⊢
    rw [decodeAt, readSlot_of_length hlength, encodeAt, settle?_eq_none rfl rfl rfl, normalFormAt]
    refine encodeMembers_decodeMembers hnames.1 ?_ hlength [] (.nil _)
    intro member hmem htakes slot hslot
    exact ih member hmem (hnames.2 member hmem) (hwritten member hmem htakes) hslot
  | array base extents traits ih =>
    rw [hasDistinctNames_array] at hnames
    rw [isWrittenAt, Bool.or_eq_true, beq_iff_eq] at hwritten
    rw [size] at hlength ⊢
    rw [decodeAt, readSlot_of_length hlength, encodeAt, settle?_eq_none rfl rfl rfl, normalFormAt]
    simp only [List.length_map, List.length_range, if_true]
    refine Overlay.run_map List.length_range fun i hi => ?_
    have hi := List.mem_range.1 hi
    have hbase : isWrittenAt options path base = true := hwritten.resolve_left (by omega)
    -- element `i` ends before the slot does
    have hfits : base.size ≤ (slot.drop (i * base.size)).length := by
      have hle := Nat.mul_le_mul_right base.size hi
      rw [Nat.succ_mul] at hle
      rw [List.length_drop]
      omega
    rw [← decodeAt_take hfits]
    exact ih hnames hbase (List.length_take_of_le hfits)
  | sequence base traits => simp [isWrittenAt, isNeverWritten, isSequence] at hwritten
  | enumeration base values traits =>
    rw [size] at hlength ⊢
    rw [decodeAt, readSlot_of_length hlength]
    exact encodeAt_decodeEnumerated hlength
  | reference flavor traits =>
    rw [size] at hlength ⊢
    rw [decodeAt, readSlot_of_length hlength]
    exact encodeAt_decodeReference hlength

/-- So is an element of a tree in which nothing is never written. -/
theorem encodeAt_decodeAt {type : Datatype} (hnames : type.hasDistinctNames = true)
    (hwritable : type.isWritable = true) {path : String} {slot : Bytes}
    (hlength : slot.length = type.size) :
    encodeAt options path type (decodeAt options path type slot) (Bytes.zeros type.size) =
      .untouched (normalFormAt options path type slot) :=
  encodeAt_decodeAt_of_written hnames (isWrittenAt_of_isWritable hwritable path) hlength

/-- **Bytes to a value and back to bytes.** Every element of a tree that can
be written, with names that tell siblings apart, comes back as its normal
form: encoding never fails on a decoded value. -/
theorem encode_decode_eq_normalForm {type : Datatype} (hnames : type.hasDistinctNames = true)
    (hwritable : type.isWritable = true) (options : ElementOptions) {bytes : Bytes}
    (hlength : bytes.length = type.size) :
    type.encode options (type.decode options bytes) = .ok (type.normalForm options bytes) := by
  rw [encode, decode, encodeAt_decodeAt hnames hwritable hlength, Overlay.toExcept_untouched,
    normalForm]

/-- A record with members of five kinds, of which one was not selected: the
name gets its end, what does not convert and what was left out are zeros. -/
theorem encode_decode_record :
    let type := ofMembers
      [("id", (ofInteger 2 true).withOrder .big),
        ("name", (ofFixedText 3).withPadding .terminated),
        ("odd", ofInteger 3 false),
        ("pair", arrayOf (ofMembers [("x", ofFloat 2), ("y", ofBitfield 1)]) [2])]
    let options : ElementOptions := { members := .only ["id", "name", "odd", "pair.x"] }
    type.encode options (type.decode options [1, 2, 65, 66, 67, 9, 9, 9, 0, 60, 7, 0, 61, 7]) =
      .ok [1, 2, 65, 66, 0, 0, 0, 0, 0, 60, 0, 0, 61, 0] :=
  (encode_decode_eq_normalForm (by decide) (by decide) _ (by decide)).trans
    (congrArg _ (by decide +kernel))

/-- A terminated slot is not left as it is even if it is read as bytes: its
last byte gives way to the end of the text. -/
theorem encode_decode_terminated_ne :
    let type := (ofFixedText 1).withPadding .terminated
    let options : ElementOptions := { convertText := false }
    type.encode options (type.decode options [65]) = .ok [0] ∧ ([0] : Bytes) ≠ [65] :=
  ⟨rfl, by decide⟩

end Datatype

end TypedAttr
