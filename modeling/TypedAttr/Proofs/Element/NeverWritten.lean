import TypedAttr.Proofs.Element.Layout
import TypedAttr.Proofs.Element.Slots
/-!
# What is never written

Floats of sixteen bytes and data of variable length have no bytes in what is
encoded, whatever the tree around them and however their place is reached or
passed over. Encoding leaves a slot as long as it was (`length_encodeAt`),
leaves every leaf that is never written zero if it was zero
(`vacant_encodeAt`), and cannot succeed past a float of sixteen bytes
(`encoded_of_reaches`); for encoding as a whole, `encode_neverWritten`.
-/

namespace TypedAttr

namespace Overlay

variable {first : Overlay} {others : Bytes} {next : Bytes → Overlay}

/-- Going on keeps the length if both steps do. -/
theorem length_andThen (h : (next others).slot.length = others.length) :
    (first.andThen others next).slot.length = first.slot.length + others.length := by
  unfold andThen
  split
  · exact List.length_append
  · simp only [List.length_append, h]

/-- The slot that comes first is as its own step left it. -/
theorem take_andThen {length : Nat} (h : first.slot.length = length) :
    (first.andThen others next).slot.take length = first.slot := by
  unfold andThen
  split <;> exact List.take_left' h

/-- The bytes behind it are untouched, or as the other step left them. -/
theorem drop_andThen {length : Nat} (h : first.slot.length = length) (others : Bytes)
    (next : Bytes → Overlay) :
    (first.andThen others next).slot.drop length = others ∨
      (first.andThen others next).slot.drop length = (next others).slot := by
  unfold andThen
  split
  · exact .inl (List.drop_left' h)
  · exact .inr (List.drop_left' h)

/-- Where going on has not failed, neither step has. -/
theorem andThen_failure (h : (first.andThen others next).failure = none) :
    first.failure = none ∧ (next others).failure = none := by
  unfold andThen at h
  split at h
  · cases h
  · exact ⟨‹_›, h⟩

theorem toExcept_eq_ok {overlay : Overlay} {bytes : Bytes} :
    overlay.toExcept = .ok bytes ↔ overlay.failure = none ∧ overlay.slot = bytes := by
  unfold toExcept
  split <;> simp_all

section Run

variable {α : Type} {write : α → Bytes → Overlay} {step : Nat} {items : List α} {slots : Bytes}

/-- A run keeps the length if writing an item does. -/
theorem length_run (h : ∀ item slot, (write item slot).slot.length = slot.length) :
    (run write step items slots).slot.length = slots.length := by
  induction items generalizing slots with
  | nil => rfl
  | cons item rest ih =>
    rw [run, length_andThen ih, h, ← List.length_append, List.take_append_drop]

/-- **What writing an item keeps of its slot, a run keeps of every slot**,
be it reached or not. -/
theorem run_preserves {p : Bytes → Prop}
    (hlength : ∀ item slot, (write item slot).slot.length = slot.length)
    (hwrite : ∀ item ∈ items, ∀ slot, slot.length = step → p slot → p (write item slot).slot)
    (hslots : slots.length = items.length * step)
    (h : ∀ i < items.length, p ((slots.drop (i * step)).take step)) :
    ∀ i < items.length, p (((run write step items slots).slot.drop (i * step)).take step) := by
  induction items generalizing slots with
  | nil => simp
  | cons item rest ih =>
    rw [List.length_cons, Nat.succ_mul] at hslots
    have hown : (slots.take step).length = step := by
      rw [List.length_take]
      omega
    have hfirst : (write item (slots.take step)).slot.length = step := (hlength ..).trans hown
    -- the slots behind the first hold what they are to hold, one place earlier
    have hlater : ∀ i < rest.length, p (((slots.drop step).drop (i * step)).take step) := by
      intro i hi
      have hnext := h (i + 1) (Nat.succ_lt_succ hi)
      rwa [Nat.succ_mul, Nat.add_comm, ← List.drop_drop] at hnext
    intro i hi
    rw [run]
    cases i with
    | zero =>
      rw [Nat.zero_mul, List.drop_zero, take_andThen hfirst]
      have hheld := h 0 hi
      rw [Nat.zero_mul, List.drop_zero] at hheld
      exact hwrite item (by simp) _ hown hheld
    | succ i =>
      have hi : i < rest.length := Nat.lt_of_succ_lt_succ hi
      rw [Nat.succ_mul, Nat.add_comm, ← List.drop_drop]
      rcases drop_andThen hfirst (slots.drop step) (run write step rest) with hdrop | hdrop
      · rw [hdrop]
        exact hlater i hi
      · rw [hdrop]
        refine ih (fun item hitem => hwrite item (List.mem_cons_of_mem _ hitem)) ?_ hlater i hi
        rw [List.length_drop]
        omega

/-- Where a run has not failed, no item has. -/
theorem run_failure (h : (run write step items slots).failure = none) :
    ∀ item ∈ items, ∃ slot, (write item slot).failure = none := by
  induction items generalizing slots with
  | nil => simp
  | cons first rest ih =>
    obtain ⟨hfirst, hrest⟩ := andThen_failure h
    intro item hitem
    rcases List.mem_cons.1 hitem with rfl | hitem
    · exact ⟨_, hfirst⟩
    · exact ih hrest item hitem

end Run

end Overlay

namespace Datatype

variable {options : ElementOptions}

/-! ## Slots keep their length -/

theorem length_writeInteger (order : ByteOrder) (signed : Bool) (n : Int) (slot : Bytes) :
    (writeInteger order signed n slot).slot.length = slot.length := by
  unfold writeInteger
  split
  · exact Bytes.length_zeros _
  · rename_i size hsize
    split
    · exact (order.length_writeWord _).trans (WordSize.bytes_of_ofBytes? hsize)
    · rfl

theorem length_encodeInteger (type : Datatype) (value : Value) (slot : Bytes) :
    (encodeInteger type value slot).slot.length = slot.length := by
  unfold encodeInteger
  split
  · exact length_writeInteger ..
  · rfl

theorem length_encodeFloat (type : Datatype) (value : Value) (slot : Bytes) :
    (encodeFloat type value slot).slot.length = slot.length := by
  unfold encodeFloat
  split
  · rfl
  · split
    case h_1 hformat | h_2 hformat | h_3 hformat =>
      exact (type.order.length_writeWord _).trans (FloatFormat.bytes_of_ofBytes? hformat)
    all_goals exact Bytes.length_zeros _

theorem length_encodeText (type : Datatype) (value : Value) (slot : Bytes) :
    (encodeText type value slot).slot.length = slot.length := by
  unfold encodeText
  split
  · exact Padding.length_fill ..
  · exact Padding.length_fill ..
  · rfl

theorem length_encodeBitfield (type : Datatype) (value : Value) (slot : Bytes) :
    (encodeBitfield type value slot).slot.length = slot.length := by
  unfold encodeBitfield
  split
  · exact Padding.length_fit ..
  · exact length_encodeInteger ..

theorem length_encodeEnumerated (type : Datatype) (value : Value) (slot : Bytes) :
    (encodeEnumerated type value slot).slot.length = slot.length := by
  unfold encodeEnumerated
  split
  · split
    · exact length_writeInteger ..
    · rfl
  · exact length_encodeInteger ..

theorem length_encodeReference (type : Datatype) (value : Value) (slot : Bytes) :
    (encodeReference type value slot).slot.length = slot.length := by
  unfold encodeReference
  split
  · split
    · rename_i hlength
      exact (type.order.length_writeWord _).trans hlength.symm
    · rfl
  · split
    · assumption
    · rfl
  · rfl

variable {path above name : String} {type : Datatype} {value : Value} {slot : Bytes}
variable {members : List (String × Datatype)} {fields : List (String × Value)}

/-- What is settled before the class is looked at leaves zeros, or the slot
as it was. -/
theorem slot_of_settle? {settled : Overlay} (h : type.settle? value slot = some settled) :
    settled.slot = slot ∨ settled.slot = Bytes.zeros slot.length := by
  unfold settle? at h
  split at h
  · obtain rfl := Option.some.inj h
    exact .inl rfl
  · split at h
    · obtain rfl := Option.some.inj h
      exact .inl rfl
    · split at h
      · obtain rfl := Option.some.inj h
        exact .inr rfl
      · cases h

theorem encodeAt_of_settled {settled : Overlay} (h : type.settle? value slot = some settled) :
    encodeAt options path type value slot = settled := by
  unfold encodeAt
  rw [h]

/-- **A float of sixteen bytes is refused**, as a value or as a type, and so
is data of variable length, whatever was in the slot. -/
theorem encodeAt_refused (h : value.isWideFloat = true ∨ type.isNeverWritten = true) :
    ∃ e, ∀ slot, encodeAt options path type value slot = .refused slot e := by
  have hsettled : ∃ e, ∀ slot, type.settle? value slot = some (.refused slot e) := by
    unfold settle?
    by_cases hwide : (type.isWideFloat || value.isWideFloat) = true
    · exact ⟨_, fun slot => if_pos hwide⟩
    · have hvariable : (type.isSequence || type.isVarText) = true := by
        rw [isNeverWritten] at h
        grind
      exact ⟨.variableLengthWrite type, fun slot => by rw [if_neg hwide, if_pos hvariable]⟩
  obtain ⟨e, hsettled⟩ := hsettled
  exact ⟨e, fun slot => encodeAt_of_settled (hsettled slot)⟩

/-- So where encoding has not failed, neither was met. -/
theorem written_of_encodeAt (h : (encodeAt options path type value slot).failure = none) :
    value.isWideFloat = false ∧ type.isNeverWritten = false := by
  have hno : ¬(value.isWideFloat = true ∨ type.isNeverWritten = true) := by
    intro hnever
    obtain ⟨e, hrefused⟩ := encodeAt_refused hnever
    rw [hrefused] at h
    cases h
  simpa [not_or] using hno

/-- So what holds of the slot and of zeros holds of what is left behind, if
the type's class sees to it. -/
theorem encodeAt_keeps (p : Bytes → Prop) (hslot : p slot) (hzeros : p (Bytes.zeros slot.length))
    (hclass : type.settle? value slot = none → p (encodeAt options path type value slot).slot) :
    p (encodeAt options path type value slot).slot := by
  cases hsettled : type.settle? value slot with
  | none => exact hclass hsettled
  | some settled =>
    rw [encodeAt_of_settled hsettled]
    rcases slot_of_settle? hsettled with h | h <;> rwa [h]

/-- What a member writes into its own slot. -/
def encodeField (options : ElementOptions) (path name : String) (type : Datatype)
    (fields : List (String × Value)) (own : Bytes) : Overlay :=
  if takesPart options path type then
    match Value.lookup? name fields with
    | some value => encodeAt options path type value own
    | none => .untouched own
  else .untouched own

theorem encodeMembers_cons (options : ElementOptions) (above name : String) (type : Datatype)
    (fields : List (String × Value)) (rest : List (String × Datatype)) (slot : Bytes) :
    encodeMembers options above fields ((name, type) :: rest) slot =
      (encodeField options (memberPath above name) name type fields
        (slot.take type.size)).andThen (slot.drop type.size)
          (encodeMembers options above fields rest) :=
  rfl

/-- So what holds of its slot, and of what any value leaves there, still
does. -/
theorem encodeField_keeps (p : Bytes → Prop) {own : Bytes} (hown : p own)
    (hvalue : ∀ value, p (encodeAt options path type value own).slot) :
    p (encodeField options path name type fields own).slot := by
  unfold encodeField
  split
  · split
    · exact hvalue _
    · exact hown
  · exact hown

theorem length_encodeMembers
    (hmembers : ∀ member ∈ members, ∀ path value slot,
      (encodeAt options path member.2 value slot).slot.length = slot.length)
    (fields : List (String × Value)) (slot : Bytes) :
    (encodeMembers options above fields members slot).slot.length = slot.length := by
  induction members generalizing slot with
  | nil => rfl
  | cons member rest ih =>
    obtain ⟨name, type⟩ := member
    have hown : (encodeField options (memberPath above name) name type fields
        (slot.take type.size)).slot.length = (slot.take type.size).length :=
      encodeField_keeps (·.length = _) rfl fun value => hmembers (name, type) (by simp) _ value _
    have hrest := ih (fun member hmember => hmembers member (List.mem_cons_of_mem _ hmember))
    rw [encodeMembers_cons, Overlay.length_andThen (hrest _), hown, ← List.length_append,
      List.take_append_drop]

/-- **Encoding leaves a slot as long as it was**, even where it fails. -/
theorem length_encodeAt (options : ElementOptions) (path : String) (type : Datatype)
    (value : Value) (slot : Bytes) :
    (encodeAt options path type value slot).slot.length = slot.length := by
  induction type generalizing path value slot with
  | compound members traits ih =>
    refine encodeAt_keeps (·.length = _) rfl (Bytes.length_zeros _) fun hsettled => ?_
    unfold encodeAt
    rw [hsettled]
    cases value with
    | compound fields => exact length_encodeMembers ih fields slot
    | _ => rfl
  | array base extents traits ih =>
    refine encodeAt_keeps (·.length = _) rfl (Bytes.length_zeros _) fun hsettled => ?_
    unfold encodeAt
    rw [hsettled]
    cases value with
    | array items =>
      simp only
      split
      · exact Overlay.length_run (ih path)
      · rfl
    | _ => rfl
  | integer | float | fixedText | varText | bitfield | blob | time | noClass | sequence
  | enumeration | reference =>
    refine encodeAt_keeps (·.length = _) rfl (Bytes.length_zeros _) fun hsettled => ?_
    unfold encodeAt
    rw [hsettled]
    simp only [length_encodeInteger, length_encodeFloat, length_encodeText,
      length_encodeBitfield, length_encodeEnumerated, length_encodeReference, Overlay.untouched,
      Bytes.length_zeros]

/-! ## Leaves that stay zero -/

/-- Of some leaves of an element, those that are never written are zero. -/
def Vacant (leaves : List Slot) (element : Bytes) : Prop :=
  ∀ leaf ∈ leaves, leaf.type.isNeverWritten = true →
    leaf.bytes element = Bytes.zeros leaf.type.size

theorem vacant_append {first second : List Slot} {element : Bytes} :
    Vacant (first ++ second) element ↔ Vacant first element ∧ Vacant second element :=
  List.forall_mem_append

theorem vacant_shift {leaves : List Slot} {distance : Nat} {element : Bytes} :
    Vacant (leaves.map (·.shift distance)) element ↔ Vacant leaves (element.drop distance) := by
  simp only [Vacant, List.forall_mem_map, Slot.bytes_shift, Slot.shift_type]

/-- Only an element's own bytes matter to it. -/
theorem vacant_take {element : Bytes} :
    Vacant type.layout (element.take type.size) ↔ Vacant type.layout element := by
  refine forall₂_congr fun leaf hleaf => ?_
  rw [Slot.bytes_take (end_le_size hleaf)]

/-- Fresh bytes are zero everywhere. -/
theorem vacant_zeros (type : Datatype) : Vacant type.layout (Bytes.zeros type.size) := by
  intro leaf hleaf _
  have hinside := end_le_size hleaf
  rw [Slot.bytes, Bytes.drop_zeros, Bytes.take_zeros, Nat.min_eq_left (by omega)]

/-- The leaves of a compound are those of its first member and, behind it,
those of the others. -/
theorem vacant_members {rest : List (String × Datatype)} {element : Bytes} :
    Vacant (layoutOfMembers ((name, type) :: rest)) element ↔
      Vacant type.layout (element.take type.size) ∧
        Vacant (layoutOfMembers rest) (element.drop type.size) := by
  rw [layoutOfMembers, vacant_append, vacant_shift, vacant_take]

/-- The leaves of an array are those of every item. -/
theorem vacant_items {base : Datatype} {extents : List Nat} {traits : Traits} {element : Bytes} :
    Vacant (array base extents traits).layout element ↔
      ∀ i < gridSize extents,
        Vacant base.layout ((element.drop (i * base.size)).take base.size) := by
  simp only [vacant_take, ← vacant_shift]
  simp only [Vacant, layout, List.mem_flatMap, List.mem_range]
  constructor
  · intro h i hi leaf hleaf
    exact h leaf ⟨i, hi, hleaf⟩
  · rintro h leaf ⟨i, hi, hleaf⟩
    exact h i hi leaf hleaf

/-- Of a leaf on its own nothing is asked, unless it is never written. -/
theorem vacant_leaf {written : Bytes} (hlayout : type.layout = [⟨0, type⟩])
    (h : type.isNeverWritten = true → Vacant type.layout written) :
    Vacant type.layout written := by
  intro leaf hleaf hnever
  obtain rfl : leaf = ⟨0, type⟩ := List.mem_singleton.1 (hlayout ▸ hleaf)
  exact h hnever _ hleaf hnever

theorem vacant_encodeMembers
    (hmembers : ∀ member ∈ members, ∀ path value (slot : Bytes), slot.length = member.2.size →
      Vacant member.2.layout slot →
        Vacant member.2.layout (encodeAt options path member.2 value slot).slot)
    (hslot : slot.length = sizeOfMembers members) (h : Vacant (layoutOfMembers members) slot) :
    Vacant (layoutOfMembers members) (encodeMembers options above fields members slot).slot := by
  induction members generalizing slot with
  | nil => exact h
  | cons member rest ih =>
    obtain ⟨name, type⟩ := member
    rw [sizeOfMembers] at hslot
    obtain ⟨hfirst, hlater⟩ := vacant_members.1 h
    have hown : (slot.take type.size).length = type.size := by
      rw [List.length_take]
      omega
    have hbehind : (slot.drop type.size).length = sizeOfMembers rest := by
      rw [List.length_drop]
      omega
    let written := encodeField options (memberPath above name) name type fields
      (slot.take type.size)
    have hwritten : Vacant type.layout written.slot :=
      encodeField_keeps (Vacant _) hfirst fun value =>
        hmembers (name, type) (by simp) _ value _ hown hfirst
    have hlength : written.slot.length = type.size :=
      encodeField_keeps (·.length = _) hown fun value => (length_encodeAt ..).trans hown
    have hrest := ih (fun member hmember => hmembers member (List.mem_cons_of_mem _ hmember))
      hbehind hlater
    rw [encodeMembers_cons, vacant_members, Overlay.take_andThen hlength]
    refine ⟨hwritten, ?_⟩
    rcases Overlay.drop_andThen hlength (slot.drop type.size)
      (encodeMembers options above fields rest) with hdrop | hdrop
    · rwa [hdrop]
    · rwa [hdrop]

/-- **Leaves that are never written stay zero**, even where encoding fails. -/
theorem vacant_encodeAt (options : ElementOptions) (path : String) (type : Datatype)
    (value : Value) (slot : Bytes) (hslot : slot.length = type.size)
    (h : Vacant type.layout slot) :
    Vacant type.layout (encodeAt options path type value slot).slot := by
  induction type generalizing path value slot with
  | compound members traits ih =>
    refine encodeAt_keeps (Vacant _) h (hslot ▸ vacant_zeros _) fun hsettled => ?_
    unfold encodeAt
    rw [hsettled]
    cases value with
    | compound fields => exact vacant_encodeMembers ih hslot h
    | _ => exact h
  | array base extents traits ih =>
    refine encodeAt_keeps (Vacant _) h (hslot ▸ vacant_zeros _) fun hsettled => ?_
    unfold encodeAt
    rw [hsettled]
    cases value with
    | array items =>
      simp only
      split
      · rename_i hcount
        rw [vacant_items] at h ⊢
        rw [← hcount] at h ⊢
        exact Overlay.run_preserves (length_encodeAt options path base)
          (fun item _ => ih path item) (hcount ▸ hslot) h
      · exact h
    | _ => exact h
  | integer | float | fixedText | varText | bitfield | blob | time | noClass | sequence
  | enumeration | reference =>
    refine vacant_leaf rfl fun hnever => ?_
    obtain ⟨e, hrefused⟩ := encodeAt_refused (.inr hnever)
    rwa [hrefused]

/-! ## What encoding reaches -/

/-- The types that are met, and the values they are met with, on the way
through a type and a value: the two themselves, and what is met in the
fields of members that take part and in the items of arrays. -/
inductive Reaches (options : ElementOptions) :
    (path : String) → Datatype → Value → Datatype → Value → Prop
  | self {path : String} {type : Datatype} {value : Value} :
    Reaches options path type value type value
  | field {path name : String} {type node : Datatype} {value met : Value}
    {members : List (String × Datatype)} {traits : Traits} {fields : List (String × Value)}
    (hmember : (name, type) ∈ members)
    (htakes : takesPart options (memberPath path name) type = true)
    (hfield : Value.lookup? name fields = some value)
    (h : Reaches options (memberPath path name) type value node met) :
    Reaches options path (.compound members traits) (.compound fields) node met
  | item {path : String} {base node : Datatype} {item met : Value} {extents : List Nat}
    {traits : Traits} {items : List Value} (hitem : item ∈ items)
    (h : Reaches options path base item node met) :
    Reaches options path (.array base extents traits) (.array items) node met

/-- Where the members are all encoded, every field that is reached was. -/
theorem encodeMembers_failure
    (h : (encodeMembers options above fields members slot).failure = none)
    (hmember : (name, type) ∈ members)
    (htakes : takesPart options (memberPath above name) type = true)
    (hfield : Value.lookup? name fields = some value) :
    ∃ own, (encodeAt options (memberPath above name) type value own).failure = none := by
  induction members generalizing slot with
  | nil => cases hmember
  | cons member rest ih =>
    rw [encodeMembers_cons] at h
    obtain ⟨hown, hrest⟩ := Overlay.andThen_failure h
    rcases List.mem_cons.1 hmember with rfl | hmember
    · rw [encodeField, if_pos htakes, hfield] at hown
      exact ⟨slot.take type.size, hown⟩
    · exact ih hrest hmember

/-- **What is reached is encoded**: where encoding has not failed, every
value that is met was encoded as the type it is met with. -/
theorem encoded_of_reaches {node : Datatype} {met : Value}
    (h : Reaches options path type value node met)
    (hencoded : (encodeAt options path type value slot).failure = none) :
    ∃ path slot, (encodeAt options path node met slot).failure = none := by
  induction h generalizing slot with
  | self => exact ⟨_, _, hencoded⟩
  | field hmember htakes hfield h ih =>
    unfold encodeAt at hencoded
    obtain ⟨own, hown⟩ := encodeMembers_failure hencoded hmember htakes hfield
    exact ih hown
  | @item path base node item met extents traits items hitem h ih =>
    unfold encodeAt at hencoded
    rw [settle?_eq_none rfl rfl rfl] at hencoded
    simp only at hencoded
    split at hencoded
    · obtain ⟨own, hown⟩ := Overlay.run_failure hencoded item hitem
      exact ih hown
    · cases hencoded

/-- Elements are encoded as the items of an array are. -/
theorem encodeElements_eq_encode (type : Datatype) (options : ElementOptions)
    (values : List Value) (traits : Traits) :
    type.encodeElements options values =
      (array type [values.length] traits).encode options (.array values) := by
  have hcount : values.length = gridSize [values.length] := (Nat.mul_one _).symm
  unfold encode encodeAt
  rw [settle?_eq_none rfl rfl rfl]
  simp only [← hcount, if_true, size, encodeElements, Nat.mul_comm]

/-- What is encoded is as long as its elements. -/
theorem length_of_encodeElements {values : List Value} {bytes : Bytes}
    (h : type.encodeElements options values = .ok bytes) :
    bytes.length = values.length * type.size := by
  obtain ⟨-, rfl⟩ := Overlay.toExcept_eq_ok.1 h
  rw [Overlay.length_run (length_encodeAt options "" type), Bytes.length_zeros, Nat.mul_comm]

/-- **What is never written is never encoded.** Where encoding succeeds, it
gives as many bytes as the type has, in which every float of sixteen bytes
and every place for data of variable length is zero, wherever in the tree it
lies; and on the way it met no float of sixteen bytes, neither as a value nor
as a type, and no type of variable length. The same holds of every element
of many. -/
theorem encode_neverWritten (type : Datatype) (options : ElementOptions) :
    (∀ value bytes, type.encode options value = .ok bytes →
      bytes.length = type.size ∧ Vacant type.layout bytes ∧
        ∀ node met, Reaches options "" type value node met →
          met.isWideFloat = false ∧ node.isNeverWritten = false) ∧
    ∀ values bytes, type.encodeElements options values = .ok bytes →
      bytes.length = values.length * type.size ∧
        ∀ i (hi : i < values.length),
          Vacant type.layout ((bytes.drop (i * type.size)).take type.size) ∧
          ∀ node met, Reaches options "" type values[i] node met →
            met.isWideFloat = false ∧ node.isNeverWritten = false := by
  have hone : ∀ (type : Datatype) value bytes, type.encode options value = .ok bytes →
      bytes.length = type.size ∧ Vacant type.layout bytes ∧
        ∀ node met, Reaches options "" type value node met →
          met.isWideFloat = false ∧ node.isNeverWritten = false := by
    intro type value bytes h
    obtain ⟨hencoded, rfl⟩ := Overlay.toExcept_eq_ok.1 h
    refine ⟨?_, ?_, fun node met hmet => ?_⟩
    · rw [length_encodeAt, Bytes.length_zeros]
    · exact vacant_encodeAt _ _ _ _ _ (Bytes.length_zeros _) (vacant_zeros type)
    · obtain ⟨path, slot, hmet⟩ := encoded_of_reaches hmet hencoded
      exact written_of_encodeAt hmet
  refine ⟨hone type, fun values bytes h => ?_⟩
  -- the elements are the items of an array with as many places
  have hcount : gridSize [values.length] = values.length := Nat.mul_one _
  have hlength := length_of_encodeElements h
  rw [encodeElements_eq_encode type options values {}] at h
  obtain ⟨-, hvacant, hmet⟩ := hone _ _ _ h
  rw [vacant_items, hcount] at hvacant
  exact ⟨hlength, fun i hi =>
    ⟨hvacant i hi, fun node met h => hmet node met (.item (List.getElem_mem hi) h)⟩⟩

/-- A record whose wide float has no field, and whose items hold a text of
any length that has none either or stands in an item that could not be
read. -/
theorem encode_neverWritten_record :
    let item := ofMembers [("note", ofVarText), ("n", ofInteger 1 false)]
    let type := ofMembers
      [("n", ofInteger 1 false), ("wide", ofFloat 16), ("items", arrayOf item [2])]
    let byte (n : BitVec 8) : Value := .int ⟨.one, false⟩ n
    let value : Value := .compound
      [("n", byte 7), ("items", .array [.compound [("n", byte 9)], .failure .missing])]
    let bytes : Bytes := 7 :: Bytes.zeros 24 ++ 9 :: Bytes.zeros 9
    type.encode {} value = .ok bytes ∧ Vacant type.layout bytes ∧
      type.encodeElements {} [value, value] = .ok (bytes ++ bytes) ∧
      Vacant type.layout (((bytes ++ bytes).drop type.size).take type.size) := by
  intro item type byte value bytes
  have hone : type.encode {} value = .ok bytes := Overlay.toExcept_eq_ok.2 (by decide +kernel)
  have htwo : type.encodeElements {} [value, value] = .ok (bytes ++ bytes) :=
    Overlay.toExcept_eq_ok.2 (by decide +kernel)
  have h := encode_neverWritten type {}
  have hsecond := ((h.2 _ _ htwo).2 1 (by decide)).1
  rw [Nat.one_mul] at hsecond
  exact ⟨hone, (h.1 value bytes hone).2.1, htwo, hsecond⟩

end Datatype

end TypedAttr
