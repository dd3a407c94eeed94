import TypedAttr.Element.Decode
import TypedAttr.Element.Encode
import TypedAttr.Proofs.Datatype.Tree
import TypedAttr.Proofs.Text.Slot
/-!
# Slots in elements

How the walk over a datatype places the slots of its parts. Decoding looks
at no byte past the type's size (`decodeAt_append`, `decodeAt_take`), and
encoding into fresh bytes joins the bytes of the parts, item by item
(`Overlay.run_map`) and member by member (`encodeMembers_taken`,
`encodeMembers_left`).
-/

namespace TypedAttr

namespace Bytes

@[simp] theorem take_zeros (n width : Nat) : (zeros width).take n = zeros (min n width) := by
  simp [zeros]

@[simp] theorem drop_zeros (n width : Nat) : (zeros width).drop n = zeros (width - n) := by
  simp [zeros]

end Bytes

namespace Overlay

/-- What is written after a slot that was written is put behind it. -/
theorem andThen_untouched {slot others after : Bytes} {next : Bytes → Overlay}
    (h : next others = untouched after) :
    (untouched slot).andThen others next = untouched (slot ++ after) := by
  simp only [andThen, untouched] at h ⊢
  rw [h]

@[simp] theorem toExcept_untouched (slot : Bytes) : (untouched slot).toExcept = .ok slot := rfl

/-- **A run into fresh bytes** puts the items' slots one behind the other. -/
theorem run_map {ι α : Type} {write : α → Bytes → Overlay} {step count : Nat} {item : ι → α}
    {bytes : ι → Bytes} {indices : List ι} (hcount : indices.length = count)
    (h : ∀ i ∈ indices, write (item i) (Bytes.zeros step) = untouched (bytes i)) :
    run write step (indices.map item) (Bytes.zeros (count * step)) =
      untouched (indices.flatMap bytes) := by
  subst hcount
  induction indices with
  | nil => simp [run, Bytes.zeros]
  | cons i rest ih =>
    -- the fresh bytes are one slot and those of the rest
    have hwidth : (rest.length + 1) * step = step + rest.length * step := by
      rw [Nat.add_mul, Nat.one_mul, Nat.add_comm]
    have hfirst : (Bytes.zeros ((rest.length + 1) * step)).take step = Bytes.zeros step := by
      rw [hwidth, Bytes.take_zeros, Nat.min_eq_left (Nat.le_add_right _ _)]
    have hlater :
        (Bytes.zeros ((rest.length + 1) * step)).drop step = Bytes.zeros (rest.length * step) := by
      rw [hwidth, Bytes.drop_zeros, Nat.add_sub_cancel_left]
    rw [List.map_cons, List.length_cons, run, hfirst, hlater, h i (by simp), List.flatMap_cons]
    exact andThen_untouched (ih fun j hj => h j (List.mem_cons_of_mem _ hj))

/-- A slot and what follows it are written if both are. -/
theorem toExcept_andThen (first : Overlay) (others : Bytes) (next : Bytes → Overlay) :
    (first.andThen others next).toExcept =
      first.toExcept >>= fun slot => (slot ++ ·) <$> (next others).toExcept := by
  obtain ⟨slot, failure⟩ := first
  cases failure with
  | some e => rfl
  | none =>
    simp only [andThen, toExcept]
    cases (next others).failure <;> rfl

/-- **A run into fresh bytes** writes each item into fresh bytes of its own. -/
theorem toExcept_run {α : Type} (write : α → Bytes → Overlay) (step : Nat) (items : List α) :
    (run write step items (Bytes.zeros (step * items.length))).toExcept =
      List.flatten <$> items.mapM fun item => (write item (Bytes.zeros step)).toExcept := by
  induction items with
  | nil => rfl
  | cons item rest ih =>
    -- the fresh bytes are one slot and those of the rest
    have hwidth : step * (rest.length + 1) = step + step * rest.length := by
      rw [Nat.mul_add, Nat.mul_one, Nat.add_comm]
    rw [List.length_cons, hwidth, run, toExcept_andThen, Bytes.take_zeros, Bytes.drop_zeros,
      Nat.min_eq_left (Nat.le_add_right _ _), Nat.add_sub_cancel_left, ih, List.mapM_cons]
    cases (write item (Bytes.zeros step)).toExcept with
    | error e => rfl
    | ok slot =>
      cases rest.mapM fun item => (write item (Bytes.zeros step)).toExcept <;> rfl

end Overlay

/-- Where pieces of one length are joined, each starts at a multiple of it. -/
theorem drop_flatMap {α β : Type} {piece : α → List β} {step : Nat} {items : List α}
    (h : ∀ item ∈ items, (piece item).length = step) (i : Nat) :
    (items.flatMap piece).drop (i * step) = (items.drop i).flatMap piece := by
  induction items generalizing i with
  | nil => simp
  | cons item rest ih =>
    cases i with
    | zero => simp
    | succ i =>
      -- one piece less to skip, and one item less
      have hskip : (i + 1) * step = (piece item).length + i * step := by
        rw [h item (by simp), Nat.add_mul, Nat.one_mul, Nat.add_comm]
      rw [List.flatMap_cons, hskip, List.drop_length_add_append, List.drop_succ_cons]
      exact ih (fun item hitem => h item (List.mem_cons_of_mem _ hitem)) i

/-- And is found there. -/
theorem take_drop_flatMap {α β : Type} {piece : α → List β} {step : Nat} {items : List α}
    (h : ∀ item ∈ items, (piece item).length = step) {i : Nat} (hi : i < items.length) :
    ((items.flatMap piece).drop (i * step)).take step = piece items[i] := by
  rw [drop_flatMap h, List.drop_eq_getElem_cons hi, List.flatMap_cons]
  exact List.take_left' (h _ (List.getElem_mem hi))

theorem length_flatMap {α β : Type} {piece : α → List β} {step : Nat} {items : List α}
    (h : ∀ item ∈ items, (piece item).length = step) :
    (items.flatMap piece).length = items.length * step := by
  induction items with
  | nil => simp
  | cons item rest ih =>
    rw [List.flatMap_cons, List.length_append, h item (by simp),
      ih fun item hitem => h item (List.mem_cons_of_mem _ hitem), List.length_cons, Nat.add_mul,
      Nat.one_mul, Nat.add_comm]

namespace Datatype

variable {options : ElementOptions}

/-! ## What is settled before the class is looked at -/

/-- A failure is written as zeros, unless the type is never written. -/
theorem settle?_failure {type : Datatype} (h : type.isNeverWritten = false)
    (cause : ConversionFailure) (slot : Bytes) :
    type.settle? (.failure cause) slot = some (.untouched (Bytes.zeros slot.length)) := by
  simp only [isNeverWritten, Bool.or_eq_false_iff] at h
  simp [settle?, h, Value.isWideFloat, Value.isFailure]

/-- Any other value is left to its type's class. -/
theorem settle?_eq_none {type : Datatype} {value : Value} (h : type.isNeverWritten = false)
    (hwide : value.isWideFloat = false) (hfailure : value.isFailure = false) (slot : Bytes) :
    type.settle? value slot = none := by
  simp only [isNeverWritten, Bool.or_eq_false_iff] at h
  simp [settle?, h, hwide, hfailure]

/-! ## Decoding from the front -/

theorem readSlot_append {size : Nat} {slot : Bytes} (h : size ≤ slot.length) (rest : Bytes)
    (read : Bytes → Value) : readSlot size (slot ++ rest) read = readSlot size slot read := by
  rw [readSlot, readSlot, if_neg (by rw [List.length_append]; omega), if_neg (by omega),
    List.take_append_of_le_length h]

/-- A slot that the bytes reach over is read. -/
theorem readSlot_of_le {size : Nat} {bytes : Bytes} (h : size ≤ bytes.length)
    (read : Bytes → Value) : readSlot size bytes read = read (bytes.take size) :=
  if_neg (Nat.not_lt_of_le h)

/-- A slot of just its size is read whole. -/
theorem readSlot_of_length {size : Nat} {slot : Bytes} (h : slot.length = size)
    (read : Bytes → Value) : readSlot size slot read = read slot := by
  rw [readSlot, if_neg (by omega), List.take_of_length_le (by omega)]

/-- **What follows an element does not matter to it.** -/
theorem decodeAt_append {path : String} {type : Datatype} {slot : Bytes}
    (h : type.size ≤ slot.length) (rest : Bytes) :
    decodeAt options path type (slot ++ rest) = decodeAt options path type slot := by
  cases type <;> exact readSlot_append h rest _

/-- So an element is decoded from its own slot. -/
theorem decodeAt_take {path : String} {type : Datatype} {bytes : Bytes}
    (h : type.size ≤ bytes.length) :
    decodeAt options path type (bytes.take type.size) = decodeAt options path type bytes := by
  have hslot : type.size ≤ (bytes.take type.size).length := by
    rw [List.length_take]
    omega
  rw [← decodeAt_append hslot (bytes.drop type.size), List.take_append_drop]

/-! ## Bytes that are kept -/

/-- Bits are written as they are. -/
theorem encodeAt_bitfield {path : String} {size : Nat} {raw : Bytes} (h : raw.length = size)
    (traits : Traits) :
    encodeAt options path (.bitfield size traits) (.bytes raw) (Bytes.zeros size) =
      .untouched raw := by
  rw [encodeAt, settle?_eq_none rfl rfl rfl]
  simp only [encodeBitfield, Bytes.length_zeros]
  exact congrArg _ (Padding.zeros.fill_of_length_eq h)

/-- And they are read as they are. -/
theorem decodeAt_bitfield {path : String} {size : Nat} {slot : Bytes} (h : slot.length = size)
    (traits : Traits) : decodeAt options path (.bitfield size traits) slot = .bytes slot := by
  rw [decodeAt, readSlot_of_length h]

/-- Bytes for a text are written as they are, but for its end. -/
theorem encodeAt_rawText (options : ElementOptions) (path : String) (raw : Bytes)
    (traits : Traits) :
    encodeAt options path (.fixedText raw.length traits) (.bytes raw) (Bytes.zeros raw.length) =
      .untouched (traits.padding.finish raw) := by
  rw [encodeAt, settle?_eq_none rfl rfl rfl]
  simp only [encodeText, Bytes.length_zeros]
  exact congrArg _ (traits.padding.fill_of_length_eq rfl)

/-! ## Members that take part -/

/-- Whether a member at a path is decoded and encoded: it was selected, or
it is a compound or an array of compounds. -/
def takesPart (options : ElementOptions) (path : String) (type : Datatype) : Bool :=
  type.leafBase.isCompound || options.members.includes path

/-- A member that takes part is decoded from its own offset. -/
theorem decodeMembers_taken {above name : String} {type : Datatype}
    {rest : List (String × Datatype)} {bytes : Bytes}
    (h : takesPart options (memberPath above name) type = true) :
    decodeMembers options above ((name, type) :: rest) bytes =
      (name, decodeAt options (memberPath above name) type bytes) ::
        decodeMembers options above rest (bytes.drop type.size) :=
  if_pos h

/-- Any other leaves no field. -/
theorem decodeMembers_left {above name : String} {type : Datatype}
    {rest : List (String × Datatype)} {bytes : Bytes}
    (h : takesPart options (memberPath above name) type = false) :
    decodeMembers options above ((name, type) :: rest) bytes =
      decodeMembers options above rest (bytes.drop type.size) :=
  if_neg (by rw [← Bool.not_eq_true] at h; exact h)

/-- Fields none of which has a member's name. -/
def Apart (fields : List (String × Value)) (members : List (String × Datatype)) : Prop :=
  ∀ name ∈ names members, name ∉ fields.map (·.1)

namespace Apart

variable {fields after : List (String × Value)} {name : String} {type : Datatype} {value : Value}
variable {rest : List (String × Datatype)}

theorem nil (members : List (String × Datatype)) : Apart [] members := by
  intro name _
  simp

theorem tail (h : Apart fields ((name, type) :: rest)) : Apart fields rest :=
  fun n hn => h n (List.mem_cons_of_mem _ hn)

/-- The field of a member stays apart from the members after it. -/
theorem snoc (h : Apart fields rest) (hname : name ∉ names rest) (value : Value) :
    Apart (fields ++ [(name, value)]) rest := by
  intro n hn hmem
  rw [List.map_append, List.mem_append] at hmem
  rcases hmem with hmem | hmem
  · exact h n hn hmem
  · obtain rfl : n = name := by simpa using hmem
    exact hname hn

/-- The field of a name is found behind fields of other names. -/
theorem lookup?_append (h : Apart fields ((name, type) :: rest)) :
    Value.lookup? name (fields ++ (name, value) :: after) = some value := by
  have hbefore : fields.find? (fun field => field.1 == name) = none := by
    rw [List.find?_eq_none]
    intro field hfield hname
    exact h name (by simp [names]) (List.mem_map.2 ⟨field, hfield, by simpa using hname⟩)
  simp [Value.lookup?, List.find?_append, hbefore]

end Apart

/-- A member with a field is encoded into its own slot, and the members
after it behind that. -/
theorem encodeMembers_taken {above name : String} {type : Datatype}
    {rest : List (String × Datatype)} {fields : List (String × Value)} {value : Value}
    {slot after : Bytes} (h : takesPart options (memberPath above name) type = true)
    (hfield : Value.lookup? name fields = some value)
    (hslot : encodeAt options (memberPath above name) type value (Bytes.zeros type.size) =
      .untouched slot)
    (hafter : encodeMembers options above fields rest (Bytes.zeros (sizeOfMembers rest)) =
      .untouched after) :
    encodeMembers options above fields ((name, type) :: rest)
      (Bytes.zeros (type.size + sizeOfMembers rest)) = .untouched (slot ++ after) := by
  simp only [takesPart] at h
  simp only [encodeMembers, h, if_true, hfield, Bytes.take_zeros, Bytes.drop_zeros,
    Nat.min_eq_left (Nat.le_add_right _ _), Nat.add_sub_cancel_left, hslot]
  exact Overlay.andThen_untouched hafter

/-- A member that takes no part leaves its slot zero. -/
theorem encodeMembers_left {above name : String} {type : Datatype}
    {rest : List (String × Datatype)} {fields : List (String × Value)} {after : Bytes}
    (h : takesPart options (memberPath above name) type = false)
    (hafter : encodeMembers options above fields rest (Bytes.zeros (sizeOfMembers rest)) =
      .untouched after) :
    encodeMembers options above fields ((name, type) :: rest)
      (Bytes.zeros (type.size + sizeOfMembers rest)) =
        .untouched (Bytes.zeros type.size ++ after) := by
  simp only [takesPart] at h
  simp only [encodeMembers, h, Bool.false_eq_true, if_false, Bytes.take_zeros, Bytes.drop_zeros,
    Nat.min_eq_left (Nat.le_add_right _ _), Nat.add_sub_cancel_left]
  exact Overlay.andThen_untouched hafter

end Datatype

end TypedAttr
