import Mathlib.Data.List.Nodup
import TypedAttr.Proofs.Element.SwappedOrder
/-!
# Encoding in the other byte order

What a datatype in the other byte order writes is what the datatype itself
does, with the slots of all numbers turned round (`encodeAt_swapped`), even
where writing fails half way. That is not so for every value: a number in a
bit field is written as a word, but the slot of bits is not turned round, and
a token in place of an address is written as it is, but the slot of an address
is. No such value is read as the type (`Yields`), and if names tell the
members of every compound apart, none comes from a member's namesake.
-/

namespace TypedAttr

/-! ## Overlays -/

namespace Overlay

/-- An overlay whose slot is changed by a function of it. -/
def turned (f : Bytes → Bytes) (overlay : Overlay) : Overlay :=
  { overlay with slot := f overlay.slot }

@[simp] theorem turned_untouched (f : Bytes → Bytes) (slot : Bytes) :
    (untouched slot).turned f = untouched (f slot) :=
  rfl

@[simp] theorem turned_refused (f : Bytes → Bytes) (slot : Bytes) (e : Error) :
    (refused slot e).turned f = refused (f slot) e :=
  rfl

theorem toExcept_turned (f : Bytes → Bytes) (overlay : Overlay) :
    (overlay.turned f).toExcept = overlay.toExcept.map f := by
  obtain ⟨slot, failure⟩ := overlay
  cases failure <;> rfl

variable {f g h : Bytes → Bytes}

/-- Going on changes both slots, each by its own function. -/
theorem andThen_turned {first : Overlay} {others : Bytes} {next next' : Bytes → Overlay}
    (hnext : next' (g others) = (next others).turned g)
    (hjoin : ∀ after, h (first.slot ++ after) = f first.slot ++ g after) :
    (first.turned f).andThen (g others) next' = (first.andThen others next).turned h := by
  obtain ⟨slot, failure⟩ := first
  cases failure with
  | some e => exact congrArg (mk · (some e)) (hjoin others).symm
  | none =>
    rw [turned, andThen, andThen, hnext]
    exact congrArg (mk · _) (hjoin _).symm

/-- **A run over items**, each of which is written into its slot as it was
changed, changes every slot. -/
theorem run_turned {α : Type} {write write' : α → Bytes → Overlay} {step : Nat} {items : List α}
    {packed : Bytes} (hf : ∀ slot : Bytes, slot.length = step → (f slot).length = step)
    (hlength : ∀ item slot, (write item slot).slot.length = slot.length)
    (hwrite : ∀ item ∈ items, ∀ slot : Bytes, slot.length = step →
      write' item (f slot) = (write item slot).turned f)
    (hpacked : packed.length = items.length * step) :
    run write' step items ((slots step items.length packed).flatMap f) =
      (run write step items packed).turned fun packed =>
        (slots step items.length packed).flatMap f := by
  induction items generalizing packed with
  | nil => rfl
  | cons item rest ih =>
    rw [List.length_cons, Nat.succ_mul] at hpacked
    have hown : (packed.take step).length = step := List.length_take_of_le (by omega)
    have hlater : (packed.drop step).length = rest.length * step := by
      rw [List.length_drop]
      omega
    have hfirst : (write item (packed.take step)).slot.length = step := (hlength ..).trans hown
    rw [List.length_cons, slots_succ, List.flatMap_cons, run, run, List.take_left' (hf _ hown),
      List.drop_left' (hf _ hown), hwrite item List.mem_cons_self _ hown]
    have hrest := ih (fun other hother => hwrite other (List.mem_cons_of_mem _ hother)) hlater
    refine andThen_turned (g := fun packed => (slots step rest.length packed).flatMap f) hrest ?_
    intro after
    rw [slots_succ, List.flatMap_cons, List.take_left' hfirst, List.drop_left' hfirst]

end Overlay

namespace Datatype

variable {options : ElementOptions} {path above name : String} {type : Datatype}
variable {members : List (String × Datatype)} {fields : List (String × Value)}
variable {value : Value} {slot : Bytes}

/-! ## What else stays the same -/

@[simp] theorem isSequence_swapped (type : Datatype) :
    type.swapped.isSequence = type.isSequence := by
  cases type <;> rfl

@[simp] theorem isVarText_swapped (type : Datatype) :
    type.swapped.isVarText = type.isVarText := by
  cases type <;> rfl

@[simp] theorem padding_swapped (type : Datatype) : type.swapped.padding = type.padding := by
  cases type <;> rfl

@[simp] theorem valueOfName?_swapped (type : Datatype) (name : String) :
    type.swapped.valueOfName? name = type.valueOfName? name := by
  cases type <;> rfl

theorem memberTexts_swapped
    (h : ∀ member ∈ members, member.2.swapped.render = member.2.render) :
    memberTexts (swappedMembers members) = memberTexts members := by
  induction members with
  | nil => rfl
  | cons member rest ih =>
    rw [swappedMembers, memberTexts, memberTexts, h member List.mem_cons_self,
      ih fun other hother => h other (List.mem_cons_of_mem _ hother)]

/-- A type is shown alike in both orders. -/
@[simp] theorem render_swapped (type : Datatype) : type.swapped.render = type.render := by
  induction type with
  | compound members traits ih =>
    unfold swapped render
    rw [memberTexts_swapped ih]
  | array base extents traits ih | sequence base traits ih =>
    unfold swapped render
    rw [ih]
  | enumeration base values traits =>
    unfold swapped render
    rw [size_swapped]
  | reference flavor traits => cases flavor <;> rfl
  | _ => rfl

theorem wrongKind_swapped (type : Datatype) (value : Value) :
    Error.wrongKind type.swapped value = .wrongKind type value := by
  rw [Error.wrongKind, Error.wrongKind, datatypeClass_swapped]

/-! ## Zeros -/

@[simp] theorem reverseSized_zeros (sizes : List Nat) (length : Nat) :
    reverseSized sizes (Bytes.zeros length) = Bytes.zeros length := by
  rw [reverseSized]
  split
  · exact List.reverse_replicate
  · rfl

theorem mem_of_mem_reverseMembers {b : UInt8}
    (hmembers : ∀ member ∈ members, ∀ slot, b ∈ member.2.reverseSlots slot → b ∈ slot)
    (h : b ∈ reverseMembers members slot) : b ∈ slot := by
  induction members generalizing slot with
  | nil => cases h
  | cons member rest ih =>
    rw [reverseMembers, List.mem_append] at h
    rcases h with h | h
    · exact List.mem_of_mem_take (hmembers member List.mem_cons_self _ h)
    · exact List.mem_of_mem_drop
        (ih (fun other hother => hmembers other (List.mem_cons_of_mem _ hother)) h)

/-- Turning slots round makes no new bytes. -/
theorem mem_of_mem_reverseSlots {b : UInt8} (h : b ∈ type.reverseSlots slot) : b ∈ slot := by
  induction type generalizing slot with
  | compound members traits ih =>
    exact mem_of_mem_reverseMembers (fun member hmember slot => ih member hmember) h
  | array base extents traits ih =>
    obtain ⟨item, hitem, hb⟩ := List.mem_flatMap.1 h
    obtain ⟨i, -, rfl⟩ := List.mem_map.1 hitem
    exact List.mem_of_mem_drop (List.mem_of_mem_take (ih hb))
  | integer | float | enumeration | reference =>
    rw [reverseSlots, reverseSized] at h
    split at h
    · exact List.mem_reverse.1 h
    · exact h
  | _ => exact h

/-- So zeros stay zeros. -/
@[simp] theorem reverseSlots_zeros (type : Datatype) :
    type.reverseSlots (Bytes.zeros type.size) = Bytes.zeros type.size := by
  refine List.eq_replicate_iff.2 ⟨length_reverseSlots (Bytes.length_zeros _), fun b hb => ?_⟩
  exact List.eq_of_mem_replicate (mem_of_mem_reverseSlots hb)

/-- What is settled before the class is looked at is settled alike. -/
theorem settle?_swapped (value : Value) (h : slot.length = type.size) :
    type.swapped.settle? value (type.reverseSlots slot) =
      (type.settle? value slot).map (·.turned type.reverseSlots) := by
  unfold settle?
  rw [isWideFloat_swapped, isSequence_swapped, isVarText_swapped, Error.variableLengthWrite,
    render_swapped, length_reverseSlots h, h]
  split
  · rfl
  · split
    · rfl
    · split
      · rw [Option.map_some, Overlay.turned_untouched, reverseSlots_zeros]
      · rfl

/-! ## Leaves -/

theorem writeInteger_swapped (order : ByteOrder) (signed : Bool) (n : Int) (slot : Bytes) :
    writeInteger order.swapped signed n (reverseSized [1, 2, 4, 8] slot) =
      (writeInteger order signed n slot).turned (reverseSized [1, 2, 4, 8]) := by
  unfold writeInteger
  rw [length_reverseSized]
  split
  · rw [Overlay.turned_untouched, reverseSized_zeros]
  · split
    · rw [ByteOrder.writeWord_swapped, Overlay.turned_untouched,
        reverseSized_of_word (order.length_writeWord _)]
    · rfl

theorem encodeInteger_swapped (type : Datatype) (value : Value) (slot : Bytes) :
    encodeInteger type.swapped value (reverseSized [1, 2, 4, 8] slot) =
      (encodeInteger type value slot).turned (reverseSized [1, 2, 4, 8]) := by
  unfold encodeInteger
  rw [order_swapped, isSigned_swapped, wrongKind_swapped]
  split
  · exact writeInteger_swapped ..
  · rfl

theorem encodeFloat_swapped (type : Datatype) (value : Value) (slot : Bytes) :
    encodeFloat type.swapped value (reverseSized [2, 4, 8, 16] slot) =
      (encodeFloat type value slot).turned (reverseSized [2, 4, 8, 16]) := by
  unfold encodeFloat
  rw [order_swapped, wrongKind_swapped, length_reverseSized]
  split
  · rfl
  · split
    case h_1 | h_2 | h_3 =>
      rw [ByteOrder.writeWord_swapped, Overlay.turned_untouched,
        reverseSized_of_format (type.order.length_writeWord _)]
    all_goals rw [Overlay.turned_untouched, reverseSized_zeros]

theorem encodeEnumerated_swapped (type : Datatype) (value : Value) (slot : Bytes) :
    encodeEnumerated type.swapped value (reverseSized [1, 2, 4, 8] slot) =
      (encodeEnumerated type value slot).turned (reverseSized [1, 2, 4, 8]) := by
  unfold encodeEnumerated
  split
  · rw [valueOfName?_swapped, order_swapped, isSigned_swapped, Error.noSuchName, render_swapped]
    split
    · exact writeInteger_swapped ..
    · rfl
  · exact encodeInteger_swapped ..

theorem encodeText_swapped (type : Datatype) (value : Value) (slot : Bytes) :
    encodeText type.swapped value slot = encodeText type value slot := by
  unfold encodeText
  rw [padding_swapped, wrongKind_swapped]

/-! ## Values that are read -/

/-- **What reading bytes as a type can yield**, whatever the bytes and
whatever is asked for. -/
def Yields (type : Datatype) (value : Value) : Prop :=
  ∃ (options : ElementOptions) (path : String) (bytes : Bytes),
    decodeAt options path type bytes = value

/-- What is read from a slot is a failure or what the slot's bytes are read
as. -/
theorem readSlot_cases (size : Nat) (bytes : Bytes) (read : Bytes → Value) :
    (readSlot size bytes read).isFailure = true ∨ ∃ slot, readSlot size bytes read = read slot := by
  unfold readSlot
  split
  · exact .inl rfl
  · exact .inr ⟨_, rfl⟩

theorem Yields.bitfield {size : Nat} {traits : Traits} (h : Yields (.bitfield size traits) value)
    (hread : value.isFailure = false) : ∃ raw, value = .bytes raw := by
  obtain ⟨options, path, bytes, rfl⟩ := h
  rw [decodeAt] at hread ⊢
  rcases readSlot_cases size bytes .bytes with hfailure | hslot
  · rw [hfailure] at hread
    cases hread
  · exact hslot

/-- A reference to an object is an address, and any other a token. -/
theorem Yields.reference {flavor : ReferenceFlavor} {traits : Traits}
    (h : Yields (.reference flavor traits) value) (hread : value.isFailure = false) :
    (flavor = .object ∧ ∃ address, value = .address address) ∨
      (flavor ≠ .object ∧ ∃ token, value = .token token) := by
  obtain ⟨options, path, bytes, rfl⟩ := h
  rw [decodeAt] at hread ⊢
  rcases readSlot_cases flavor.tokenSize bytes (decodeReference traits.order flavor)
    with hfailure | ⟨slot, hslot⟩
  · rw [hfailure] at hread
    cases hread
  · rw [hslot]
    cases flavor with
    | object => exact .inl ⟨rfl, _, rfl⟩
    | region | standard => exact .inr ⟨by decide, _, rfl⟩

theorem Yields.item {base : Datatype} {extents : List Nat} {traits : Traits} {items : List Value}
    {item : Value} (h : Yields (.array base extents traits) (.array items)) (hitem : item ∈ items) :
    Yields base item := by
  obtain ⟨options, path, bytes, h⟩ := h
  rw [decodeAt, readSlot] at h
  split at h
  · cases h
  · cases h
    obtain ⟨i, -, rfl⟩ := List.mem_map.1 hitem
    exact ⟨options, path, _, rfl⟩

theorem yields_of_mem_decodeMembers {bytes : Bytes} {field : String × Value}
    (h : field ∈ decodeMembers options above members bytes) :
    ∃ type, (field.1, type) ∈ members ∧ Yields type field.2 := by
  induction members generalizing bytes with
  | nil => cases h
  | cons member rest ih =>
    obtain ⟨name, type⟩ := member
    cases htakes : takesPart options (memberPath above name) type with
    | false =>
      rw [decodeMembers_left htakes] at h
      obtain ⟨type, hmember, hvalue⟩ := ih h
      exact ⟨type, List.mem_cons_of_mem _ hmember, hvalue⟩
    | true =>
      rw [decodeMembers_taken htakes] at h
      rcases List.mem_cons.1 h with rfl | h
      · exact ⟨type, List.mem_cons_self, options, _, bytes, rfl⟩
      · obtain ⟨type, hmember, hvalue⟩ := ih h
        exact ⟨type, List.mem_cons_of_mem _ hmember, hvalue⟩

/-- **A member finds the field that was read as the member**, if no other is
of its name. -/
theorem Yields.field {traits : Traits} (hnames : (names members).Nodup)
    (h : Yields (.compound members traits) (.compound fields)) (hmember : (name, type) ∈ members)
    (hfield : Value.lookup? name fields = some value) : Yields type value := by
  obtain ⟨options, path, bytes, h⟩ := h
  rw [decodeAt, readSlot] at h
  split at h
  · cases h
  · cases h
    rw [Value.lookup?, Option.map_eq_some_iff] at hfield
    obtain ⟨⟨other, value⟩, hfound, rfl⟩ := hfield
    obtain rfl : other = name := by simpa using List.find?_some hfound
    obtain ⟨otherType, hother, hvalue⟩ :=
      yields_of_mem_decodeMembers (List.mem_of_find?_eq_some hfound)
    obtain rfl : type = otherType :=
      congrArg Prod.snd (List.inj_on_of_nodup_map hnames hmember hother rfl)
    exact hvalue

/-- An address is written as the word that it is, and a token, which is not of
eight bytes, as its bytes. -/
theorem encodeReference_swapped {flavor : ReferenceFlavor} {traits : Traits}
    (hslot : slot.length = flavor.tokenSize)
    (hvalue : (flavor = .object ∧ ∃ address, value = .address address) ∨
      (flavor ≠ .object ∧ ∃ token, value = .token token)) :
    encodeReference (.reference flavor traits.swapped) value (reverseSized [8] slot) =
      (encodeReference (.reference flavor traits) value slot).turned (reverseSized [8]) := by
  rcases hvalue with ⟨rfl, address, rfl⟩ | ⟨hflavor, token, rfl⟩
  · have hword := traits.order.length_writeWord address
    have hturned : reverseSized [8] (traits.order.writeWord address) =
        traits.order.swapped.writeWord address := by
      rw [reverseSized, if_pos (List.mem_singleton.2 hword), ByteOrder.writeWord_swapped]
    rw [encodeReference_address address hslot,
      encodeReference_address address ((length_reverseSized _ slot).trans hslot),
      Overlay.turned_untouched]
    exact congrArg Overlay.untouched hturned.symm
  · have hkept : ∀ bytes : Bytes, bytes.length = flavor.tokenSize →
        reverseSized [8] bytes = bytes := by
      intro bytes hbytes
      rw [reverseSized, hbytes, if_neg]
      cases flavor with
      | object => exact absurd rfl hflavor
      | region | standard => decide
    rw [hkept slot hslot]
    simp only [encodeReference]
    split
    · next hsize => rw [Overlay.turned_untouched, hkept _ (hsize.trans hslot)]
    · rw [Overlay.turned_refused, hkept slot hslot]

/-! ## Trees -/

theorem encodeField_swapped {own : Bytes}
    (h : ∀ value, Value.lookup? name fields = some value →
      encodeAt options path type.swapped value (type.reverseSlots own) =
        (encodeAt options path type value own).turned type.reverseSlots) :
    encodeField options path name type.swapped fields (type.reverseSlots own) =
      (encodeField options path name type fields own).turned type.reverseSlots := by
  unfold encodeField
  rw [takesPart_swapped]
  split
  · split
    · next hfield => exact h _ hfield
    · rfl
  · rfl

/-- Members are encoded alike if each is. -/
theorem encodeMembers_swapped
    (h : ∀ name type, (name, type) ∈ members → ∀ value, Value.lookup? name fields = some value →
      ∀ (path : String) (slot : Bytes), slot.length = type.size →
        encodeAt options path type.swapped value (type.reverseSlots slot) =
          (encodeAt options path type value slot).turned type.reverseSlots)
    (above : String) (hslot : slot.length = sizeOfMembers members) :
    encodeMembers options above fields (swappedMembers members) (reverseMembers members slot) =
      (encodeMembers options above fields members slot).turned (reverseMembers members) := by
  induction members generalizing slot with
  | nil => rfl
  | cons member rest ih =>
    obtain ⟨name, type⟩ := member
    obtain ⟨hown, hlater⟩ := length_of_members hslot
    have hturned := length_reverseSlots hown
    have hrest := ih (fun name type hmember => h name type (List.mem_cons_of_mem _ hmember)) hlater
    have hfirst := encodeField_swapped fun value hfield =>
      h name type List.mem_cons_self value hfield (memberPath above name) _ hown
    have hwritten : (encodeField options (memberPath above name) name type fields
        (slot.take type.size)).slot.length = type.size :=
      encodeField_keeps (·.length = _) hown fun value => (length_encodeAt ..).trans hown
    rw [swappedMembers, reverseMembers, encodeMembers_cons, encodeMembers_cons, size_swapped,
      List.take_left' hturned, List.drop_left' hturned, hfirst]
    refine Overlay.andThen_turned (g := reverseMembers rest) hrest fun after => ?_
    rw [reverseMembers, List.take_left' hwritten, List.drop_left' hwritten]

/-- What is settled beforehand aside, it is for the type's class to see that
the other order makes no other difference. -/
theorem encodeAt_swapped_of_class (hslot : slot.length = type.size)
    (hclass : type.settle? value slot = none →
      type.swapped.settle? value (type.reverseSlots slot) = none →
        encodeAt options path type.swapped value (type.reverseSlots slot) =
          (encodeAt options path type value slot).turned type.reverseSlots) :
    encodeAt options path type.swapped value (type.reverseSlots slot) =
      (encodeAt options path type value slot).turned type.reverseSlots := by
  have hsettle := settle?_swapped value hslot
  cases hsettled : type.settle? value slot with
  | none =>
    rw [hsettled] at hsettle
    exact hclass hsettled hsettle
  | some settled =>
    rw [hsettled] at hsettle
    rw [encodeAt_of_settled hsettle, encodeAt_of_settled hsettled]

/-- Failures are settled beforehand. -/
theorem not_failure_of_settle? (h : type.settle? value slot = none) : value.isFailure = false := by
  unfold settle? at h
  split at h
  · cases h
  · split at h
    · cases h
    · split at h
      · cases h
      · next hread => exact Bool.eq_false_iff.2 hread

/-- **What is read as a type is written in the other order** into the slot as
it is written in the type's own, with the slots of all numbers turned round. -/
theorem encodeAt_swapped (hnames : type.hasDistinctNames = true) (hvalue : Yields type value)
    (path : String) (hslot : slot.length = type.size) :
    encodeAt options path type.swapped value (type.reverseSlots slot) =
      (encodeAt options path type value slot).turned type.reverseSlots := by
  induction type generalizing value path slot
  all_goals
    refine encodeAt_swapped_of_class hslot fun hsettled hsettle => ?_
    unfold encodeAt
    rw [hsettle, hsettled]
  case compound members traits ih =>
    cases value with
    | compound fields =>
      obtain ⟨hdistinct, hmembers⟩ := hasDistinctNames_compound.1 hnames
      refine encodeMembers_swapped (fun name type hmember value hfield path slot => ?_) path hslot
      exact ih (name, type) hmember (hmembers _ hmember) (hvalue.field hdistinct hmember hfield)
        path
    | _ => rfl
  case array base extents traits ih =>
    cases value with
    | array items =>
      simp only [swapped]
      split
      · next hcount =>
        rw [size, ← hcount] at hslot
        have hturned : (array base extents traits).reverseSlots = fun packed =>
            (slots base.size items.length packed).flatMap base.reverseSlots := by
          funext packed
          rw [reverseSlots, hcount]
        rw [size_swapped, hturned]
        exact Overlay.run_turned (fun _ => length_reverseSlots) (length_encodeAt options path base)
          (fun item hitem slot =>
            ih (hasDistinctNames_array.symm.trans hnames) (hvalue.item hitem) path) hslot
      · rfl
    | _ => rfl
  case integer => exact encodeInteger_swapped ..
  case float => exact encodeFloat_swapped ..
  case enumeration => exact encodeEnumerated_swapped ..
  case fixedText => exact encodeText_swapped ..
  case bitfield =>
    obtain ⟨raw, rfl⟩ := hvalue.bitfield (not_failure_of_settle? hsettled)
    rfl
  case reference flavor traits =>
    exact encodeReference_swapped hslot (hvalue.reference (not_failure_of_settle? hsettled))
  case varText | blob | time | noClass | sequence => rfl

end Datatype

end TypedAttr
