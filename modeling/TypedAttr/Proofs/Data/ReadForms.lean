import TypedAttr.Data.Packed
import TypedAttr.Proofs.Element.Leaf
/-!
# The forms of data read at once

The packed bytes of all elements become data in one go: words are taken out
of the whole of them, texts and tokens chunk by chunk. `Represents` says
which data stand for which decoded elements of a type, and
`represents_iff_ofPacked` that the data read at once are those, and no
others, that stand for the elements decoded one by one.
-/

namespace TypedAttr

/-! ## Slots of one length -/

/-- The first `count` slots of `step` items each. -/
def slots {α : Type} (step count : Nat) (items : List α) : List (List α) :=
  (List.range count).map fun i => (items.drop (i * step)).take step

section Slots

variable {α : Type} {step count : Nat}

theorem slots_succ (step count : Nat) (items : List α) :
    slots step (count + 1) items = items.take step :: slots step count (items.drop step) := by
  have hstart : ∀ i, (i + 1) * step = step + i * step := by
    intro i
    rw [Nat.add_mul, Nat.one_mul, Nat.add_comm]
  simp [slots, List.range_succ_eq_map, Function.comp_def, hstart]

/-- Every slot within the items is full. -/
theorem length_of_mem_slots {items slot : List α} (h : items.length = count * step)
    (hslot : slot ∈ slots step count items) : slot.length = step := by
  obtain ⟨i, hi, rfl⟩ := List.mem_map.1 hslot
  have fits : (i + 1) * step ≤ items.length := by
    rw [h]
    exact Nat.mul_le_mul_right step (List.mem_range.1 hi)
  rw [Nat.add_mul] at fits
  rw [List.length_take, List.length_drop]
  omega

/-- Items that are a count of chunks are cut into their slots. -/
theorem wholeChunks_eq_slots {items : List α} (hstep : 0 < step)
    (h : items.length = count * step) : wholeChunks step items = slots step count items := by
  rw [wholeChunks, h, Nat.mul_div_cancel _ hstep, slots]

/-- Where a cut falls between chunks, each side is cut by itself. -/
theorem wholeChunks_append {n k : Nat} {front : List α} (h : front.length = k * n)
    (items : List α) :
    wholeChunks n (front ++ items) = wholeChunks n front ++ wholeChunks n items := by
  rcases Nat.eq_zero_or_pos n with rfl | hn
  · simp [wholeChunks]
  have htotal : (front ++ items).length / n = k + items.length / n := by
    rw [List.length_append, h, Nat.mul_comm, Nat.mul_add_div hn]
  have hfront : front.length / n = k := by rw [h, Nat.mul_div_cancel _ hn]
  rw [wholeChunks, wholeChunks, wholeChunks, htotal, hfront, List.range_add, List.map_append,
    List.map_map]
  congr 1
  · apply List.map_congr_left
    intro i hi
    have fits : (i + 1) * n ≤ k * n := Nat.mul_le_mul_right n (List.mem_range.1 hi)
    rw [Nat.add_mul] at fits
    rw [List.drop_append_of_le_length (by omega), List.take_append_of_le_length]
    rw [List.length_drop]
    omega
  · apply List.map_congr_left
    intro i _
    rw [Function.comp_apply, Nat.add_mul, ← h, List.drop_length_add_append]

/-- Pieces of one length are the chunks of what they are joined to. -/
theorem wholeChunks_flatten {n : Nat} (hn : 0 < n) {pieces : List (List α)}
    (h : ∀ piece ∈ pieces, piece.length = n) : wholeChunks n pieces.flatten = pieces := by
  induction pieces with
  | nil => simp [wholeChunks]
  | cons piece rest ih =>
    have hpiece : piece.length = n := h piece (by simp)
    have hone : wholeChunks n piece = [piece] := by
      rw [wholeChunks, hpiece, Nat.div_self hn]
      simp [← hpiece]
    rw [List.flatten_cons, wholeChunks_append (k := 1) (by omega), hone,
      ih fun other hother => h other (by simp [hother])]
    rfl

/-- **Chunks can be cut out of larger slots**, if those are whole counts of
chunks. -/
theorem flatMap_wholeChunks {n k : Nat} {items : List α} (h : items.length = count * (k * n)) :
    (slots (k * n) count items).flatMap (wholeChunks n) = wholeChunks n items := by
  induction count generalizing items with
  | zero =>
    obtain rfl : items = [] := List.eq_nil_of_length_eq_zero (by omega)
    simp [slots, wholeChunks]
  | succ count ih =>
    rw [Nat.add_mul, Nat.one_mul] at h
    have hfirst : (items.take (k * n)).length = k * n := by
      rw [List.length_take]
      omega
    have hrest : (items.drop (k * n)).length = count * (k * n) := by
      rw [List.length_drop]
      omega
    rw [slots_succ, List.flatMap_cons, ih hrest, ← wholeChunks_append hfirst,
      List.take_append_drop]

end Slots

/-! ## Images of all items -/

section Images

variable {α β γ ι : Type} {items : List α}

/-- Where two images tell the same of each item, they tell the same of all. -/
theorem map_eq_map_iff {f : α → β} {g : α → γ} {u : ι → β} {v : ι → γ}
    (h : ∀ item name, f item = u name ↔ g item = v name) (names : List ι) :
    items.map f = names.map u ↔ items.map g = names.map v := by
  induction items generalizing names with
  | nil => cases names <;> simp
  | cons item rest ih => cases names <;> simp [h, ih]

/-- All items have an image. -/
theorem mapM_eq_some_iff {f : α → Option β} {images : List β} :
    items.mapM f = some images ↔ items.map f = images.map some := by
  induction items generalizing images with
  | nil => cases images <;> simp
  | cons item rest ih =>
    cases images with
    | nil => cases hitem : f item <;> cases hrest : rest.mapM f <;> simp [hitem, hrest]
    | cons image images =>
      cases hitem : f item with
      | none => simp [hitem]
      | some first =>
        rw [List.map_cons, List.map_cons, hitem, List.cons.injEq, ← ih]
        cases hrest : rest.mapM f <;> simp [hitem, hrest]

/-- Some item has none. -/
theorem mapM_eq_none_iff {f : α → Option β} :
    items.mapM f = none ↔ ∃ item ∈ items, f item = none := by
  induction items with
  | nil => simp
  | cons item rest ih =>
    cases hitem : f item with
    | none => simp [hitem]
    | some first => cases hrest : rest.mapM f <;> simp_all

end Images

/-! ## Elements in their slots -/

namespace Value

mutual

/-- The innermost items of nested arrays, in order. -/
def leaves : Value → List Value
  | .array items => leavesOf items
  | value => [value]

/-- The innermost items of all values, in order. -/
def leavesOf : List Value → List Value
  | [] => []
  | value :: rest => value.leaves ++ leavesOf rest

end

theorem leavesOf_eq_flatMap (values : List Value) : leavesOf values = values.flatMap leaves := by
  induction values with
  | nil => rfl
  | cons value rest ih => rw [leavesOf, ih, List.flatMap_cons]

end Value

namespace Datatype

variable {options : ElementOptions} {type : Datatype} {count : Nat} {packed : Bytes}

/-- Reading from where each slot starts is reading the slots. -/
theorem map_decodeAt_drop {path : String} (h : packed.length = count * type.size) :
    ((List.range count).map fun i => decodeAt options path type (packed.drop (i * type.size))) =
      (slots type.size count packed).map (decodeAt options path type) := by
  rw [slots, List.map_map]
  apply List.map_congr_left
  intro i hi
  have fits : (i + 1) * type.size ≤ packed.length := by
    rw [h]
    exact Nat.mul_le_mul_right type.size (List.mem_range.1 hi)
  rw [Nat.add_mul] at fits
  exact (decodeAt_take (by rw [List.length_drop]; omega)).symm

/-- There are as many as are asked for, whatever the bytes. -/
theorem length_decodeElements (type : Datatype) (options : ElementOptions) (count : Nat)
    (packed : Bytes) : (type.decodeElements options count packed).length = count := by
  rw [decodeElements, List.length_map, List.length_range]

/-- **Elements within the bytes are decoded from their own slots.** -/
theorem decodeElements_eq_map (h : packed.length = count * type.size) :
    type.decodeElements options count packed =
      (slots type.size count packed).map (type.decode options) := by
  refine Eq.trans ?_ (map_decodeAt_drop h)
  apply List.map_congr_left
  intro i hi
  have hstart : i * type.size ≤ packed.length := by
    rw [h]
    exact Nat.mul_le_mul_right type.size (Nat.le_of_lt (List.mem_range.1 hi))
  exact if_neg (by omega)

/-- So a type that is read in one piece is read chunk by chunk. -/
theorem decodeElements_eq_chunks (type : Datatype) {read : Bytes → Value} (hsize : 0 < type.size)
    (hread : ∀ slot, slot.length = type.size → type.decode options slot = read slot)
    (h : packed.length = count * type.size) :
    type.decodeElements options count packed = (wholeChunks type.size packed).map read := by
  rw [decodeElements_eq_map h, wholeChunks_eq_slots hsize h]
  apply List.map_congr_left
  intro slot hslot
  exact hread slot (length_of_mem_slots h hslot)

/-- And one that is read as a word, word by word. -/
theorem decodeElements_eq_words {order : ByteOrder} {width : Nat}
    {value : BitVec (8 * width) → Value} (hwidth : 0 < width) (hsize : type.size = width)
    (hread : ∀ slot, slot.length = width →
      type.decode options slot = value (order.readWord width slot))
    (h : packed.length = count * width) :
    type.decodeElements options count packed = (order.readWords width packed).map value := by
  subst hsize
  rw [type.decodeElements_eq_chunks hwidth hread h, ByteOrder.readWords, List.map_map]
  rfl

/-- Elements back to back are the items of an array of them. -/
theorem array_decodeElements (h : packed.length = count * type.size) (traits : Traits) :
    .array (type.decodeElements options count packed) =
      decodeAt options "" (.array type [count] traits) packed := by
  have hgrid : gridSize [count] = count := Nat.mul_one count
  have harray : packed.length = gridSize [count] * type.size := by rw [hgrid, h]
  rw [decodeElements_eq_map h, decodeAt, readSlot_of_length harray, map_decodeAt_drop harray, hgrid]
  rfl

/-- Nested arrays of wide floats have the size of all of these. -/
theorem size_of_wideLeaf (h : type.leafBase.isWideFloat = true) :
    type.size = type.arrayLength * FloatFormat.quad.bytes := by
  induction type with
  | float size traits =>
    have hsize : size = 16 := by simpa [leafBase, isWideFloat] using h
    simp [Datatype.size, arrayLength, hsize, FloatFormat.bytes]
  | array base extents traits ih =>
    rw [Datatype.size, arrayLength, ih h, Nat.mul_assoc]
  | _ => cases h

/-- **The leaves of nested arrays of wide floats** are the patterns in their
slot, in order. -/
theorem leaves_decodeAt (type : Datatype) {path : String} {slot : Bytes}
    (hwide : type.leafBase.isWideFloat = true) (h : slot.length = type.size) :
    (decodeAt options path type slot).leaves =
      (type.leafBase.order.readWords FloatFormat.quad.bytes slot).map (.float .quad) := by
  induction type generalizing slot with
  | float size traits =>
    obtain rfl : size = FloatFormat.quad.bytes := of_decide_eq_true hwide
    change slot.length = FloatFormat.quad.bytes at h
    have hchunk : wholeChunks FloatFormat.quad.bytes slot = [slot] := by
      rw [wholeChunks_eq_slots (by decide) (h.trans (Nat.one_mul _).symm), slots_succ,
        List.take_of_length_le (Nat.le_of_eq h)]
      rfl
    rw [decodeAt, readSlot_of_length h, decodeFloat_of_length h, ByteOrder.readWords, hchunk]
    rfl
  | array base extents traits ih =>
    have hbase : base.size = base.arrayLength * FloatFormat.quad.bytes := size_of_wideLeaf hwide
    have hslot : slot.length = gridSize extents * base.size := h
    let pattern (chunk : Bytes) : Value :=
      .float .quad (base.leafBase.order.readWord FloatFormat.quad.bytes chunk)
    have hitems : ∀ item ∈ slots base.size (gridSize extents) slot,
        (decodeAt options path base item).leaves =
          (wholeChunks FloatFormat.quad.bytes item).map pattern := by
      intro item hitem
      rw [ih hwide (length_of_mem_slots hslot hitem), ByteOrder.readWords, List.map_map]
      rfl
    calc (decodeAt options path (.array base extents traits) slot).leaves
        = ((slots base.size (gridSize extents) slot).map
            fun item => (decodeAt options path base item).leaves).flatten := by
          rw [decodeAt, readSlot_of_length hslot, map_decodeAt_drop hslot, Value.leaves,
            Value.leavesOf_eq_flatMap, List.flatMap_map, List.flatMap_def]
      _ = ((slots base.size (gridSize extents) slot).map
            fun item => (wholeChunks FloatFormat.quad.bytes item).map pattern).flatten := by
          rw [List.map_congr_left hitems]
      _ = (wholeChunks FloatFormat.quad.bytes slot).map pattern := by
          rw [← List.flatMap_def, ← List.map_flatMap, hbase,
            flatMap_wholeChunks (by rw [hslot, hbase])]
      _ = _ := by
          rw [ByteOrder.readWords, List.map_map]
          rfl
  | _ => cases hwide

/-- Whether data of a type are its decoded elements: those with structure,
names or bits, those of a class without values, and numbers of sizes that do
not convert. -/
def isReadAsValues : Datatype → Bool
  | .integer size _ _ => (WordSize.ofBytes? size).isNone
  | .float size _ => (FloatFormat.ofBytes? size).isNone
  | .array base _ _ => !base.leafBase.isWideFloat
  | .bitfield .. | .blob .. | .time .. | .noClass _ | .compound .. | .sequence ..
  | .enumeration .. => true
  | .fixedText .. | .varText _ | .reference .. => false

end Datatype

/-! ## What data stand for -/

namespace Data

/-- **The data that stand for decoded elements** of a type, read from packed
bytes with some options. -/
inductive Represents (options : ElementOptions) (packed : Bytes) :
    Datatype → List Value → Data → Prop
  /-- Words hold the numbers of integers. -/
  | integers {bytes : Nat} {signed : Bool} {traits : Traits} {size : WordSize}
    {elements : List Value} (words : List (BitVec (IntKind.bits ⟨size, signed⟩)))
    (hsize : WordSize.ofBytes? bytes = some size)
    (helements : elements = words.map (.int ⟨size, signed⟩)) :
    Represents options packed (.integer bytes signed traits) elements (.ints ⟨size, signed⟩ words)
  /-- Patterns hold floats bit by bit. -/
  | floats {bytes : Nat} {traits : Traits} {format : FloatFormat} {elements : List Value}
    (patterns : List (BitVec format.bits)) (hformat : FloatFormat.ofBytes? bytes = some format)
    (helements : elements = patterns.map (.float format)) :
    Represents options packed (.float bytes traits) elements (.floats format patterns)
  /-- Arrays of wide floats are laid out flat. -/
  | wideFloats {base : Datatype} {extents : List Nat} {traits : Traits} {elements : List Value}
    (patterns : List (BitVec FloatFormat.quad.bits)) (hwide : base.leafBase.isWideFloat = true)
    (hleaves : Value.leavesOf elements = patterns.map (.float .quad)) :
    Represents options packed (.array base extents traits) elements (.floats .quad patterns)
  /-- Unsigned words of eight bytes hold addresses. -/
  | addresses {traits : Traits} {elements : List Value} (words : List Address)
    (helements : elements = words.map .address) :
    Represents options packed (.reference .object traits) elements (.ints ⟨.eight, false⟩ words)
  | tokens {flavor : ReferenceFlavor} {traits : Traits} {elements : List Value}
    (items : List Token) (hflavor : flavor ≠ .object) (helements : elements = items.map .token) :
    Represents options packed (.reference flavor traits) elements (.tokens items)
  | texts {size : Nat} {traits : Traits} {elements : List Value} (items : List String)
    (hconvert : options.convertText = true) (helements : elements = items.map .text) :
    Represents options packed (.fixedText size traits) elements (.texts items)
  /-- Texts that are not asked for, or not all text, stay the bytes that they
  are in. -/
  | raw {size : Nat} {traits : Traits} {elements : List Value}
    (huntold : options.convertText = true → ∃ element ∈ elements, ∀ text, element ≠ .text text) :
    Represents options packed (.fixedText size traits) elements (.raw packed)
  | values {type : Datatype} {elements : List Value} (htype : type.isReadAsValues = true) :
    Represents options packed type elements (.values elements)

variable {options : ElementOptions} {count : Nat} {packed : Bytes}

/-! ## Elements of each form -/

theorem decodeElements_integer {bytes : Nat} {signed : Bool} {traits : Traits} {size : WordSize}
    (hsize : WordSize.ofBytes? bytes = some size) (h : packed.length = count * bytes) :
    (Datatype.integer bytes signed traits).decodeElements options count packed =
      (traits.order.readWords size.bytes packed).map (.int ⟨size, signed⟩) := by
  obtain rfl := WordSize.bytes_of_ofBytes? hsize
  refine Datatype.decodeElements_eq_words ?_ rfl ?_ h
  · cases size <;> exact Nat.succ_pos _
  intro slot hslot
  exact (Datatype.readSlot_of_length hslot _).trans (Datatype.decodeInteger_of_length hslot)

theorem decodeElements_float {bytes : Nat} {traits : Traits} {format : FloatFormat}
    (hformat : FloatFormat.ofBytes? bytes = some format) (h : packed.length = count * bytes) :
    (Datatype.float bytes traits).decodeElements options count packed =
      (traits.order.readWords format.bytes packed).map (.float format) := by
  obtain rfl := FloatFormat.bytes_of_ofBytes? hformat
  refine Datatype.decodeElements_eq_words (by cases format <;> decide) rfl ?_ h
  intro slot hslot
  exact (Datatype.readSlot_of_length hslot _).trans (Datatype.decodeFloat_of_length hslot)

theorem decodeElements_object {traits : Traits} (h : packed.length = count * 8) :
    (Datatype.reference .object traits).decodeElements options count packed =
      (traits.order.readWords 8 packed).map .address := by
  refine Datatype.decodeElements_eq_words (by decide) rfl ?_ h
  intro slot hslot
  exact Datatype.readSlot_of_length hslot _

theorem decodeElements_token {flavor : ReferenceFlavor} {traits : Traits}
    (hflavor : flavor ≠ .object) (h : packed.length = count * flavor.tokenSize) :
    (Datatype.reference flavor traits).decodeElements options count packed =
      (Token.split flavor.tokenSize packed).map .token := by
  rw [Token.split, List.map_map]
  refine Datatype.decodeElements_eq_chunks _ ?_ ?_ h
  · cases flavor <;> exact Nat.succ_pos _
  intro slot hslot
  refine (Datatype.readSlot_of_length hslot _).trans ?_
  cases flavor with
  | object => exact absurd rfl hflavor
  | region | standard => rfl

theorem decodeElements_text {size : Nat} {traits : Traits} (hsize : 0 < size)
    (h : packed.length = count * size) :
    (Datatype.fixedText size traits).decodeElements options count packed =
      (wholeChunks size packed).map (Datatype.decodeText options traits.padding) := by
  refine (Datatype.fixedText size traits).decodeElements_eq_chunks hsize ?_ h
  intro slot hslot
  exact Datatype.readSlot_of_length hslot _

/-- The leaves of all elements are the patterns in all of the bytes. -/
theorem leavesOf_decodeElements (type : Datatype) (hwide : type.leafBase.isWideFloat = true)
    (h : packed.length = count * type.size) :
    Value.leavesOf (type.decodeElements options count packed) =
      (type.leafBase.order.readWords FloatFormat.quad.bytes packed).map (.float .quad) := by
  have harray : packed.length = (Datatype.array type [count] {}).size := by
    rw [Datatype.size, h]
    exact congrArg (· * type.size) (Nat.mul_one count).symm
  rw [← Value.leaves, Datatype.array_decodeElements h {}]
  exact (Datatype.array type [count] {}).leaves_decodeAt hwide harray

/-! ## Texts -/

theorem decodeText_eq_text_iff (hconvert : options.convertText = true) {padding : Padding}
    (slot : Bytes) (text : String) :
    Datatype.decodeText options padding slot = .text text ↔ padding.text? slot = some text := by
  rw [Datatype.decodeText, if_pos hconvert]
  cases padding.text? slot <;> simp

theorem textsOfPacked?_eq_mapM {padding : Padding} {size : Nat} (hsize : 0 < size)
    (h : packed.length = count * size) :
    textsOfPacked? padding size count packed = (wholeChunks size packed).mapM padding.text? := by
  have hcount : (wholeChunks size packed).length = count := by
    rw [length_wholeChunks, h, Nat.mul_div_cancel _ hsize]
  rw [textsOfPacked?, Nat.max_eq_left hsize, List.take_of_length_le (Nat.le_of_eq hcount)]

/-- All slots are texts just if all elements are. -/
theorem textsOfPacked?_eq_some_iff {size : Nat} {traits : Traits} {items : List String}
    (hconvert : options.convertText = true) (hsize : 0 < size)
    (h : packed.length = count * size) :
    textsOfPacked? traits.padding size count packed = some items ↔
      (Datatype.fixedText size traits).decodeElements options count packed = items.map .text := by
  rw [textsOfPacked?_eq_mapM hsize h, decodeElements_text hsize h, mapM_eq_some_iff]
  exact (map_eq_map_iff (decodeText_eq_text_iff hconvert) items).symm

/-- Some slot is no text just if some element is none. -/
theorem textsOfPacked?_eq_none_iff {size : Nat} {traits : Traits}
    (hconvert : options.convertText = true) (hsize : 0 < size)
    (h : packed.length = count * size) :
    textsOfPacked? traits.padding size count packed = none ↔
      ∃ element ∈ (Datatype.fixedText size traits).decodeElements options count packed,
        ∀ text, element ≠ .text text := by
  rw [textsOfPacked?_eq_mapM hsize h, decodeElements_text hsize h, mapM_eq_none_iff]
  have huntold (slot : Bytes) : traits.padding.text? slot = none ↔
      ∀ text, Datatype.decodeText options traits.padding slot ≠ .text text := by
    simp only [ne_eq, decodeText_eq_text_iff hconvert, Option.eq_none_iff_forall_ne_some]
  constructor
  · rintro ⟨slot, hslot, hnone⟩
    exact ⟨_, List.mem_map_of_mem hslot, (huntold slot).1 hnone⟩
  · rintro ⟨element, helement, hother⟩
    obtain ⟨slot, hslot, rfl⟩ := List.mem_map.1 helement
    exact ⟨slot, hslot, (huntold slot).2 hother⟩

/-! ## Data read at once -/

/-- Data of any other type are its elements. -/
theorem ofPacked_of_isReadAsValues {type : Datatype} (htype : type.isReadAsValues = true) :
    ofPacked type options count packed = .values (type.decodeElements options count packed) := by
  cases type with
  | integer bytes signed traits =>
    rw [Datatype.isReadAsValues, Option.isNone_iff_eq_none] at htype
    simp only [ofPacked, htype]
  | float bytes traits =>
    rw [Datatype.isReadAsValues, Option.isNone_iff_eq_none] at htype
    simp only [ofPacked, htype]
  | array base extents traits =>
    have hwide : ¬base.leafBase.isWideFloat = true := by simpa [Datatype.isReadAsValues] using htype
    exact if_neg hwide
  | fixedText | varText | reference => cases htype
  | _ => rfl

variable {type : Datatype}

/-- Data read at once stand for the elements. -/
theorem represents_ofPacked (hvar : type.isVarText = false)
    (htext : type.datatypeClass = .text → 0 < type.size)
    (h : packed.length = count * type.size) :
    Represents options packed type (type.decodeElements options count packed)
      (ofPacked type options count packed) := by
  by_cases hvalues : type.isReadAsValues = true
  · rw [ofPacked_of_isReadAsValues hvalues]
    exact .values hvalues
  cases type with
  | integer bytes signed traits =>
    obtain ⟨size, hsize⟩ : ∃ size, WordSize.ofBytes? bytes = some size := by
      simpa [Datatype.isReadAsValues, Option.ne_none_iff_exists'] using hvalues
    simp only [ofPacked, hsize]
    exact .integers _ hsize (decodeElements_integer hsize h)
  | float bytes traits =>
    obtain ⟨format, hformat⟩ : ∃ format, FloatFormat.ofBytes? bytes = some format := by
      simpa [Datatype.isReadAsValues, Option.ne_none_iff_exists'] using hvalues
    simp only [ofPacked, hformat]
    exact .floats _ hformat (decodeElements_float hformat h)
  | fixedText size traits =>
    by_cases hconvert : options.convertText = true
    · rw [ofPacked, if_pos hconvert]
      cases htexts : textsOfPacked? traits.padding size count packed with
      | none => exact .raw fun _ => (textsOfPacked?_eq_none_iff hconvert (htext rfl) h).1 htexts
      | some items =>
        exact .texts items hconvert ((textsOfPacked?_eq_some_iff hconvert (htext rfl) h).1 htexts)
    · rw [ofPacked, if_neg hconvert]
      exact .raw fun hconverted => absurd hconverted hconvert
  | varText traits => cases hvar
  | array base extents traits =>
    have hwide : base.leafBase.isWideFloat = true := by
      simpa [Datatype.isReadAsValues] using hvalues
    have hread : ofPacked (.array base extents traits) options count packed =
        .floats .quad (base.leafBase.order.readWords FloatFormat.quad.bytes packed) :=
      if_pos hwide
    rw [hread]
    exact .wideFloats _ hwide (leavesOf_decodeElements (.array base extents traits) hwide h)
  | reference flavor traits =>
    cases flavor with
    | object => exact .addresses _ (decodeElements_object h)
    | region | standard => exact .tokens _ (by decide) (decodeElements_token (by decide) h)
  | _ => exact absurd rfl hvalues

/-- And nothing else stands for them. -/
theorem Represents.eq_ofPacked {data : Data}
    (hdata : Represents options packed type (type.decodeElements options count packed) data)
    (htext : type.datatypeClass = .text → 0 < type.size)
    (h : packed.length = count * type.size) : data = ofPacked type options count packed := by
  generalize hread : type.decodeElements options count packed = elements at hdata
  cases hdata with
  | integers words hsize helements =>
    rw [helements, decodeElements_integer hsize h,
      List.map_inj_right fun _ _ hword => by cases hword; rfl] at hread
    simp only [ofPacked, hsize, hread]
  | floats patterns hformat helements =>
    rw [helements, decodeElements_float hformat h,
      List.map_inj_right fun _ _ hpattern => by cases hpattern; rfl] at hread
    simp only [ofPacked, hformat, hread]
  | @wideFloats base extents traits _ patterns hwide hleaves =>
    rw [← hread, leavesOf_decodeElements (.array base extents traits) hwide h,
      List.map_inj_right fun _ _ hpattern => by cases hpattern; rfl] at hleaves
    rw [← hleaves]
    exact (if_pos hwide).symm
  | addresses words helements =>
    rw [helements, decodeElements_object h,
      List.map_inj_right fun _ _ hword => by cases hword; rfl] at hread
    rw [← hread]
    rfl
  | @tokens flavor traits _ items hflavor helements =>
    rw [helements, decodeElements_token hflavor h,
      List.map_inj_right fun _ _ htoken => by cases htoken; rfl] at hread
    rw [← hread]
    cases flavor with
    | object => exact absurd rfl hflavor
    | region | standard => rfl
  | @texts size traits _ items hconvert helements =>
    have htexts : textsOfPacked? traits.padding size count packed = some items :=
      (textsOfPacked?_eq_some_iff hconvert (htext rfl) h).2 (hread.trans helements)
    simp only [ofPacked, if_pos hconvert, htexts]
  | @raw size traits _ huntold =>
    subst hread
    by_cases hconvert : options.convertText = true
    · have hnone : textsOfPacked? traits.padding size count packed = none :=
        (textsOfPacked?_eq_none_iff hconvert (htext rfl) h).2 (huntold hconvert)
      simp only [ofPacked, if_pos hconvert, hnone]
    · exact (if_neg hconvert).symm
  | values htype => rw [ofPacked_of_isReadAsValues htype, hread]

/-- **Reading at once is reading element by element**: the data are those,
and only those, that stand for the decoded elements. -/
theorem represents_iff_ofPacked (hvar : type.isVarText = false)
    (htext : type.datatypeClass = .text → 0 < type.size)
    (h : packed.length = count * type.size) (data : Data) :
    Represents options packed type (type.decodeElements options count packed) data ↔
      data = ofPacked type options count packed := by
  constructor
  · intro hdata
    exact hdata.eq_ofPacked htext h
  · rintro rfl
    exact represents_ofPacked hvar htext h

/-- Two signed words, the big end first. -/
theorem represents_bigEndianPair :
    let type := Datatype.integer 2 true { order := .big }
    (type.isVarText = false ∧ (type.datatypeClass = .text → 0 < type.size)) ∧
      Represents {} [1, 2, 255, 254] type (type.decodeElements {} 2 [1, 2, 255, 254])
        (.ints ⟨.two, true⟩ [258, -2]) :=
  ⟨⟨rfl, by decide⟩, (represents_iff_ofPacked rfl (by decide) rfl _).2 rfl⟩

end Data

end TypedAttr
