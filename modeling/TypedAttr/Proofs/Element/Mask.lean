import TypedAttr.Proofs.Element.NeverWritten
/-!
# Writing by a mask

Encoding into bytes that are there lays a mask over them: which bytes are
written, what is written there and whether that fails does not depend on what
was there, and bytes off the mask stay as they were, even where encoding fails
(`Overlay.LaysOver`). The mask is settled by the type, the value and the
options alone (`mask`), and a leaf is either filled or refused, so its mask is
its whole slot (`laysOver_encodeAt`).
-/

namespace TypedAttr

namespace Overlay

/-! ## Writing by a mask -/

/-- Whether writing lays a mask over its slot: what is written, and whether
that fails, does not depend on what was there, and bytes off the mask stay as
they were, even where writing fails. -/
structure LaysOver (mask : List Bool) (write : Bytes → Overlay) : Prop where
  length : ∀ slot, slot.length = mask.length → (write slot).slot.length = mask.length
  failure : ∀ slot other, slot.length = mask.length → other.length = mask.length →
    (write slot).failure = (write other).failure
  written : ∀ slot other, slot.length = mask.length → other.length = mask.length →
    (write slot).failure = none → ∀ p : Nat, mask[p]? = some true →
      (write slot).slot[p]? = (write other).slot[p]?
  kept : ∀ slot, slot.length = mask.length → ∀ p : Nat, mask[p]? ≠ some true →
    (write slot).slot[p]? = slot[p]?

variable {mask after : List Bool} {write first next : Bytes → Overlay}

/-- A slot that is refused is left as it was, whatever the mask. -/
theorem laysOver_refused {e : Error}
    (h : ∀ slot, slot.length = mask.length → write slot = refused slot e) :
    LaysOver mask write where
  length slot hslot := by rw [h slot hslot, refused, hslot]
  failure slot other hslot hother := by rw [h slot hslot, h other hother, refused, refused]
  written slot other hslot _ hdone := by
    rw [h slot hslot] at hdone
    cases hdone
  kept slot hslot p _ := by rw [h slot hslot, refused]

theorem laysOver_untouched (length : Nat) : LaysOver (List.replicate length false) untouched where
  length _ hslot := hslot
  failure _ _ _ _ := rfl
  written _ _ _ _ _ p hp := by simp [List.getElem?_replicate] at hp
  kept _ _ _ _ := rfl

/-- Whether writing fills slots of a length, whatever was in them, or refuses
them. -/
abbrev Fills (length : Nat) (write : Bytes → Overlay) : Prop :=
  LaysOver (List.replicate length true) write

theorem fills_of_refused {length : Nat} {e : Error}
    (h : ∀ slot, slot.length = length → write slot = refused slot e) : Fills length write :=
  laysOver_refused fun slot hslot => h slot (hslot.trans List.length_replicate)

theorem fills_of_untouched {bytes : Bytes} {length : Nat} (hbytes : bytes.length = length)
    (h : ∀ slot, slot.length = length → write slot = untouched bytes) : Fills length write := by
  have hlength : (List.replicate length true).length = length := List.length_replicate
  constructor
  case length =>
    intro slot hslot
    rw [h slot (hslot.trans hlength), untouched, hbytes, hlength]
  case failure =>
    intro slot other hslot hother
    rw [h slot (hslot.trans hlength), h other (hother.trans hlength)]
  case written =>
    intro slot other hslot hother _ p _
    rw [h slot (hslot.trans hlength), h other (hother.trans hlength)]
  case kept =>
    intro slot hslot p hp
    have hp : length ≤ p := by simpa [List.getElem?_replicate] using hp
    have hslot := hslot.trans hlength
    have hwritten : (write slot).slot = bytes := congrArg Overlay.slot (h slot hslot)
    -- a byte off this mask is behind the slot
    rw [hwritten, List.getElem?_eq_none (by omega), List.getElem?_eq_none (by omega)]

/-- Zeros fill a slot. -/
theorem fills_zeros (length : Nat) :
    Fills length fun slot => untouched (Bytes.zeros slot.length) :=
  fills_of_untouched (Bytes.length_zeros length) fun slot hslot => by rw [hslot]

theorem toExcept_eq_error {overlay : Overlay} {e : Error} :
    overlay.toExcept = .error e ↔ overlay.failure = some e := by
  unfold toExcept
  split <;> simp_all

theorem failure_andThen (first : Overlay) (others : Bytes) (next : Bytes → Overlay) :
    (first.andThen others next).failure = first.failure.or (next others).failure := by
  unfold andThen
  cases first.failure <;> rfl

/-- The slot that comes first is as its own step left it. -/
theorem getElem?_andThen_left {first : Overlay} {length p : Nat} (h : first.slot.length = length)
    (hp : p < length) (others : Bytes) (next : Bytes → Overlay) :
    (first.andThen others next).slot[p]? = first.slot[p]? := by
  have htake : (first.andThen others next).slot.take length = first.slot := take_andThen h
  rw [← htake, List.getElem?_take_of_lt hp]

/-- The bytes behind it are as the other step left them, if there was one. -/
theorem getElem?_andThen_right {first : Overlay} {length : Nat} (h : first.slot.length = length)
    (others : Bytes) (next : Bytes → Overlay) (p : Nat) :
    (first.andThen others next).slot[length + p]? =
      if first.failure.isSome then others[p]? else (next others).slot[p]? := by
  have hbehind (bytes : Bytes) : (first.slot ++ bytes)[length + p]? = bytes[p]? := by
    rw [List.getElem?_append_right (by omega), h, Nat.add_sub_cancel_left]
  unfold andThen
  cases first.failure <;> exact hbehind _

/-- **Masks of slots are joined** where the slots are. -/
theorem LaysOver.andThen (hfirst : LaysOver mask first) (hnext : LaysOver after next) :
    LaysOver (mask ++ after) fun slot =>
      (first (slot.take mask.length)).andThen (slot.drop mask.length) next := by
  have htake (slot : Bytes) (hslot : slot.length = (mask ++ after).length) :
      (slot.take mask.length).length = mask.length := by
    rw [List.length_append] at hslot
    exact List.length_take_of_le (by omega)
  have hdrop (slot : Bytes) (hslot : slot.length = (mask ++ after).length) :
      (slot.drop mask.length).length = after.length := by
    rw [List.length_append] at hslot
    rw [List.length_drop]
    omega
  have hlength (slot : Bytes) (hslot : slot.length = (mask ++ after).length) :=
    hfirst.length _ (htake slot hslot)
  have hfailure (slot other : Bytes) (hslot : slot.length = (mask ++ after).length)
      (hother : other.length = (mask ++ after).length) :=
    hfirst.failure _ _ (htake slot hslot) (htake other hother)
  constructor
  case length =>
    intro slot hslot
    have hrest := hnext.length _ (hdrop slot hslot)
    rw [length_andThen (hrest.trans (hdrop slot hslot).symm), hlength slot hslot,
      hdrop slot hslot, List.length_append]
  case failure =>
    intro slot other hslot hother
    rw [failure_andThen, failure_andThen, hfailure slot other hslot hother,
      hnext.failure _ _ (hdrop slot hslot) (hdrop other hother)]
  case written =>
    intro slot other hslot hother hdone p hp
    obtain ⟨hown, hrest⟩ := andThen_failure hdone
    rcases Nat.lt_or_ge p mask.length with hlt | hge
    · rw [List.getElem?_append_left hlt] at hp
      rw [getElem?_andThen_left (hlength slot hslot) hlt,
        getElem?_andThen_left (hlength other hother) hlt]
      exact hfirst.written _ _ (htake slot hslot) (htake other hother) hown p hp
    · obtain ⟨q, rfl⟩ := Nat.exists_eq_add_of_le hge
      rw [List.getElem?_append_right hge, Nat.add_sub_cancel_left] at hp
      rw [getElem?_andThen_right (hlength slot hslot),
        getElem?_andThen_right (hlength other hother), ← hfailure slot other hslot hother, hown]
      exact hnext.written _ _ (hdrop slot hslot) (hdrop other hother) hrest q hp
  case kept =>
    intro slot hslot p hp
    rcases Nat.lt_or_ge p mask.length with hlt | hge
    · rw [List.getElem?_append_left hlt] at hp
      rw [getElem?_andThen_left (hlength slot hslot) hlt,
        hfirst.kept _ (htake slot hslot) p hp, List.getElem?_take_of_lt hlt]
    · obtain ⟨q, rfl⟩ := Nat.exists_eq_add_of_le hge
      rw [List.getElem?_append_right hge, Nat.add_sub_cancel_left] at hp
      rw [getElem?_andThen_right (hlength slot hslot), hnext.kept _ (hdrop slot hslot) q hp,
        ite_self, List.getElem?_drop]

/-- **A run lays the masks of its items** one behind the other. -/
theorem laysOver_run {α : Type} {mask : α → List Bool} {write : α → Bytes → Overlay} {step : Nat}
    {items : List α} (hmask : ∀ item ∈ items, (mask item).length = step)
    (h : ∀ item ∈ items, LaysOver (mask item) (write item)) :
    LaysOver (items.flatMap mask) (run write step items) := by
  induction items with
  | nil => exact laysOver_untouched 0
  | cons item rest ih =>
    have hrest := ih (fun item hitem => hmask item (List.mem_cons_of_mem _ hitem))
      (fun item hitem => h item (List.mem_cons_of_mem _ hitem))
    have hboth := (h item List.mem_cons_self).andThen hrest
    rwa [hmask item List.mem_cons_self] at hboth

end Overlay

namespace Value

theorem exists_of_isFailure {value : Value} (h : value.isFailure = true) :
    ∃ cause, value = .failure cause := by
  cases value with
  | failure cause => exact ⟨cause, rfl⟩
  | _ => cases h

end Value

namespace Datatype

variable {options : ElementOptions} {path above name : String} {type : Datatype} {value : Value}
variable {members : List (String × Datatype)} {fields : List (String × Value)}

/-! ## Masks of elements -/

/-- Whether a type is neither a compound nor an array. -/
def isLeaf (type : Datatype) : Bool := !(type.isCompound || type.isArray)

mutual

/-- Which bytes of an element are written, members being named by their path
below `path`: those of all leaves and all failures that encoding comes to. -/
def mask (options : ElementOptions) (path : String) : Datatype → Value → List Bool
  | .compound members _, .compound fields => maskOfMembers options path fields members
  | .array base extents _, .array items =>
    if items.length = gridSize extents then items.flatMap (mask options path base)
    else List.replicate (gridSize extents * base.size) false
  | type, value => List.replicate type.size (type.isLeaf || value.isFailure)

/-- Which bytes of packed members are written. -/
def maskOfMembers (options : ElementOptions) (above : String) (fields : List (String × Value)) :
    List (String × Datatype) → List Bool
  | [] => []
  | (name, type) :: rest =>
    let path := memberPath above name
    let own :=
      if takesPart options path type then
        match Value.lookup? name fields with
        | some value => mask options path type value
        | none => List.replicate type.size false
      else List.replicate type.size false
    own ++ maskOfMembers options above fields rest

end

/-- Which bytes of a member are written. -/
def maskOfField (options : ElementOptions) (above : String) (fields : List (String × Value))
    (member : String × Datatype) : List Bool :=
  if takesPart options (memberPath above member.1) member.2 then
    match Value.lookup? member.1 fields with
    | some value => mask options (memberPath above member.1) member.2 value
    | none => List.replicate member.2.size false
  else List.replicate member.2.size false

theorem maskOfMembers_eq_flatten (members : List (String × Datatype)) :
    maskOfMembers options above fields members =
      (members.map (maskOfField options above fields)).flatten := by
  induction members with
  | nil => rfl
  | cons member rest ih =>
    rw [List.map_cons, List.flatten_cons, ← ih]
    rfl

/-- The mask of a failure is its whole slot. -/
theorem mask_failure (type : Datatype) (cause : ConversionFailure) :
    mask options path type (.failure cause) = List.replicate type.size true := by
  cases type <;> rfl

/-- The mask of a leaf is its whole slot. -/
theorem mask_leaf (h : type.isLeaf = true) (value : Value) :
    mask options path type value = List.replicate type.size true := by
  cases type with
  | compound | array => cases h
  | _ => rfl

theorem length_maskOfField {member : String × Datatype}
    (h : ∀ path value, (mask options path member.2 value).length = member.2.size) :
    (maskOfField options above fields member).length = member.2.size := by
  unfold maskOfField
  split
  · split
    · exact h _ _
    · exact List.length_replicate
  · exact List.length_replicate

theorem length_maskOfMembers
    (h : ∀ member ∈ members, ∀ path value,
      (mask options path member.2 value).length = member.2.size) :
    (maskOfMembers options above fields members).length = sizeOfMembers members := by
  induction members with
  | nil => rfl
  | cons member rest ih =>
    have hown : (maskOfField options above fields member).length = member.2.size :=
      length_maskOfField (h member List.mem_cons_self)
    have hrest := ih fun member hmember => h member (List.mem_cons_of_mem _ hmember)
    rw [sizeOfMembers, ← hown, ← hrest, ← List.length_append]
    rfl

theorem length_mask (options : ElementOptions) (path : String) (type : Datatype) (value : Value) :
    (mask options path type value).length = type.size := by
  induction type generalizing path value with
  | compound members traits ih =>
    cases value with
    | compound fields => exact length_maskOfMembers ih
    | _ => exact List.length_replicate
  | array base extents traits ih =>
    cases value with
    | array items =>
      rw [mask, Datatype.size]
      split
      · rename_i hcount
        rw [length_flatMap fun item _ => ih path item, hcount]
      · exact List.length_replicate
    | _ => exact List.length_replicate
  | integer | float | fixedText | varText | bitfield | blob | time | noClass | sequence
  | enumeration | reference => rw [mask_leaf rfl, List.length_replicate]

/-! ## Leaves are filled -/

/-- **A number fills its slot** or is refused. -/
theorem fills_writeInteger (order : ByteOrder) (signed : Bool) (n : Int) (length : Nat) :
    Overlay.Fills length (writeInteger order signed n) := by
  cases hsize : WordSize.ofBytes? length with
  | none =>
    refine Overlay.fills_of_untouched (Bytes.length_zeros length) fun slot hslot => ?_
    rw [writeInteger, hslot, hsize]
  | some size =>
    cases hword : IntKind.ofInt? ⟨size, signed⟩ n with
    | some word =>
      have hlength := (order.length_writeWord word).trans (WordSize.bytes_of_ofBytes? hsize)
      refine Overlay.fills_of_untouched hlength fun slot hslot => ?_
      simp only [writeInteger, hslot, hsize, hword]
    | none =>
      refine Overlay.fills_of_refused (e := .outOfSlot n length signed) fun slot hslot => ?_
      simp only [writeInteger, hslot, hsize, hword]

theorem fills_encodeInteger (type : Datatype) (value : Value) (length : Nat) :
    Overlay.Fills length (encodeInteger type value) := by
  unfold encodeInteger
  cases value.toInt? with
  | some n => exact fills_writeInteger ..
  | none => exact Overlay.fills_of_refused fun _ _ => rfl

theorem fills_encodeFloat (type : Datatype) (value : Value) (length : Nat) :
    Overlay.Fills length (encodeFloat type value) := by
  unfold encodeFloat
  cases value.toDouble? with
  | none => exact Overlay.fills_of_refused fun _ _ => rfl
  | some double =>
    cases hformat : FloatFormat.ofBytes? length with
    | none =>
      refine Overlay.fills_of_untouched (Bytes.length_zeros length) fun slot hslot => ?_
      simp only [hslot, hformat]
    | some format =>
      have hword (pattern : BitVec format.bits) :=
        (type.order.length_writeWord pattern).trans (FloatFormat.bytes_of_ofBytes? hformat)
      cases format with
      | half =>
        refine Overlay.fills_of_untouched (hword (halfPattern value double)) fun slot hslot => ?_
        simp only [hslot, hformat]
      | single =>
        refine Overlay.fills_of_untouched (hword (singlePattern value double)) fun slot hslot => ?_
        simp only [hslot, hformat]
      | double =>
        refine Overlay.fills_of_untouched (hword double) fun slot hslot => ?_
        simp only [hslot, hformat]
      | quad =>
        refine Overlay.fills_of_untouched (Bytes.length_zeros length) fun slot hslot => ?_
        simp only [hslot, hformat]

theorem fills_encodeText (type : Datatype) (value : Value) (length : Nat) :
    Overlay.Fills length (encodeText type value) := by
  have hfill (text : Bytes) := type.padding.length_fill text length
  cases value with
  | text text =>
    exact Overlay.fills_of_untouched (hfill (Text.utf8 text)) fun slot hslot => by
      rw [encodeText, hslot]
  | bytes raw =>
    exact Overlay.fills_of_untouched (hfill raw) fun slot hslot => by rw [encodeText, hslot]
  | _ => exact Overlay.fills_of_refused fun _ _ => rfl

theorem fills_encodeBitfield (type : Datatype) (value : Value) (length : Nat) :
    Overlay.Fills length (encodeBitfield type value) := by
  by_cases hraw : ∃ raw, value = .bytes raw
  · obtain ⟨raw, rfl⟩ := hraw
    refine Overlay.fills_of_untouched (Padding.length_fit 0 raw length) fun slot hslot => ?_
    rw [encodeBitfield, hslot]
  · have heq : encodeBitfield type value = encodeInteger type value := by
      funext slot
      unfold encodeBitfield
      split
      · exact absurd ⟨_, rfl⟩ hraw
      · rfl
    exact heq ▸ fills_encodeInteger ..

theorem fills_encodeEnumerated (type : Datatype) (value : Value) (length : Nat) :
    Overlay.Fills length (encodeEnumerated type value) := by
  by_cases hname : ∃ name, value = .text name
  · obtain ⟨name, rfl⟩ := hname
    cases hn : type.valueOfName? name with
    | some n =>
      have heq : encodeEnumerated type (.text name) = writeInteger type.order type.isSigned n := by
        funext slot
        simp only [encodeEnumerated, hn]
      exact heq ▸ fills_writeInteger ..
    | none =>
      refine Overlay.fills_of_refused (e := .noSuchName type name) fun slot _ => ?_
      simp only [encodeEnumerated, hn]
  · have heq : encodeEnumerated type value = encodeInteger type value := by
      funext slot
      unfold encodeEnumerated
      split
      · exact absurd ⟨_, rfl⟩ hname
      · rfl
    exact heq ▸ fills_encodeInteger ..

theorem fills_encodeReference (type : Datatype) (value : Value) (length : Nat) :
    Overlay.Fills length (encodeReference type value) := by
  cases value with
  | address address =>
    by_cases height : length = 8
    · refine Overlay.fills_of_untouched ((type.order.length_writeWord address).trans height.symm)
        fun slot hslot => ?_
      simp only [encodeReference, hslot, height, if_true]
    · apply Overlay.fills_of_refused
      intro slot hslot
      exact if_neg (hslot ▸ height)
  | token token =>
    by_cases hsize : token.size = length
    · refine Overlay.fills_of_untouched hsize fun slot hslot => ?_
      simp only [encodeReference, hslot, hsize, if_true]
    · apply Overlay.fills_of_refused
      intro slot hslot
      rw [encodeReference, hslot]
      exact if_neg hsize
  | _ => exact Overlay.fills_of_refused fun _ _ => rfl

/-! ## Trees -/

/-- **Members lay their masks** over their own slots, one behind the other. -/
theorem laysOver_encodeMembers
    (h : ∀ member ∈ members, ∀ path value,
      Overlay.LaysOver (mask options path member.2 value) (encodeAt options path member.2 value)) :
    Overlay.LaysOver (maskOfMembers options above fields members)
      (encodeMembers options above fields members) := by
  induction members with
  | nil => exact Overlay.laysOver_untouched 0
  | cons member rest ih =>
    obtain ⟨name, type⟩ := member
    have hown : Overlay.LaysOver (maskOfField options above fields (name, type))
        (encodeField options (memberPath above name) name type fields) := by
      unfold maskOfField encodeField
      cases takesPart options (memberPath above name) type with
      | true =>
        cases Value.lookup? name fields with
        | some value => exact h (name, type) List.mem_cons_self _ value
        | none => exact Overlay.laysOver_untouched type.size
      | false => exact Overlay.laysOver_untouched type.size
    have hboth := hown.andThen (ih fun member hmember => h member (List.mem_cons_of_mem _ hmember))
    rwa [length_maskOfField fun path value => length_mask ..] at hboth

/-- What is settled before the class is looked at lays a mask over the slot,
so it remains to see that the class does. -/
theorem laysOver_of_class
    (hclass : (∀ slot, type.settle? value slot = none) →
      Overlay.LaysOver (mask options path type value) (encodeAt options path type value)) :
    Overlay.LaysOver (mask options path type value) (encodeAt options path type value) := by
  by_cases hnever : value.isWideFloat = true ∨ type.isNeverWritten = true
  · obtain ⟨e, hrefused⟩ :
        ∃ e, ∀ slot, encodeAt options path type value slot = .refused slot e :=
      encodeAt_refused hnever
    exact Overlay.laysOver_refused fun slot _ => hrefused slot
  · obtain ⟨hwide, hwritten⟩ := not_or.1 hnever
    rw [Bool.not_eq_true] at hwide hwritten
    cases hfailure : value.isFailure with
    | true =>
      obtain ⟨cause, rfl⟩ := Value.exists_of_isFailure hfailure
      rw [mask_failure]
      have heq : encodeAt options path type (.failure cause) =
          fun slot => .untouched (Bytes.zeros slot.length) :=
        funext fun slot => encodeAt_of_settled (settle?_failure hwritten cause slot)
      exact heq ▸ Overlay.fills_zeros type.size
    | false => exact hclass fun slot => settle?_eq_none hwritten hwide hfailure slot

theorem laysOver_leaf {write : Bytes → Overlay} (hleaf : type.isLeaf = true)
    (hwrite : Overlay.Fills type.size write)
    (hclass : ∀ slot, type.settle? value slot = none →
      encodeAt options path type value slot = write slot) :
    Overlay.LaysOver (mask options path type value) (encodeAt options path type value) := by
  refine laysOver_of_class fun hsettled => ?_
  rw [mask_leaf hleaf, funext fun slot => hclass slot (hsettled slot)]
  exact hwrite

/-- **Encoding lays a mask over its slot.** -/
theorem laysOver_encodeAt (options : ElementOptions) (path : String) (type : Datatype)
    (value : Value) :
    Overlay.LaysOver (mask options path type value) (encodeAt options path type value) := by
  induction type generalizing path value with
  | compound members traits ih =>
    refine laysOver_of_class fun hsettled => ?_
    cases value with
    | compound fields =>
      have heq : encodeAt options path (.compound members traits) (.compound fields) =
          encodeMembers options path fields members := by
        funext slot
        unfold encodeAt
        rw [hsettled slot]
      exact heq ▸ laysOver_encodeMembers ih
    | _ =>
      apply Overlay.laysOver_refused
      intro slot _
      unfold encodeAt
      rw [hsettled slot]
  | array base extents traits ih =>
    refine laysOver_of_class fun hsettled => ?_
    cases value with
    | array items =>
      by_cases hcount : items.length = gridSize extents
      · have heq : encodeAt options path (.array base extents traits) (.array items) =
            Overlay.run (encodeAt options path base) base.size items := by
          funext slot
          unfold encodeAt
          rw [hsettled slot]
          exact if_pos hcount
        rw [heq, mask, if_pos hcount]
        exact Overlay.laysOver_run (fun item _ => length_mask ..) fun item _ => ih path item
      · apply Overlay.laysOver_refused
        intro slot _
        unfold encodeAt
        rw [hsettled slot]
        exact if_neg hcount
    | _ =>
      apply Overlay.laysOver_refused
      intro slot _
      unfold encodeAt
      rw [hsettled slot]
  | integer size signed traits =>
    have hfilled := fills_encodeInteger (.integer size signed traits) value size
    refine laysOver_leaf rfl hfilled fun slot hsettled => ?_
    unfold encodeAt
    rw [hsettled]
  | float size traits =>
    have hfilled := fills_encodeFloat (.float size traits) value size
    refine laysOver_leaf rfl hfilled fun slot hsettled => ?_
    unfold encodeAt
    rw [hsettled]
  | fixedText size traits =>
    have hfilled := fills_encodeText (.fixedText size traits) value size
    refine laysOver_leaf rfl hfilled fun slot hsettled => ?_
    unfold encodeAt
    rw [hsettled]
  | bitfield size traits =>
    have hfilled := fills_encodeBitfield (.bitfield size traits) value size
    refine laysOver_leaf rfl hfilled fun slot hsettled => ?_
    unfold encodeAt
    rw [hsettled]
  | enumeration base values traits =>
    have hfilled := fills_encodeEnumerated (.enumeration base values traits) value base.size
    refine laysOver_leaf rfl hfilled fun slot hsettled => ?_
    unfold encodeAt
    rw [hsettled]
  | reference flavor traits =>
    have hfilled := fills_encodeReference (.reference flavor traits) value flavor.tokenSize
    refine laysOver_leaf rfl hfilled fun slot hsettled => ?_
    unfold encodeAt
    rw [hsettled]
  | varText | blob | time | noClass | sequence =>
    refine laysOver_leaf rfl (Overlay.fills_zeros _) fun slot hsettled => ?_
    unfold encodeAt
    rw [hsettled]

end Datatype

end TypedAttr
