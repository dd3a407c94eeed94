import TypedAttr.Proofs.Data.ReadForms
import TypedAttr.Proofs.Data.WriteForms
import TypedAttr.Proofs.Element.NeverWritten
import TypedAttr.Proofs.Element.NormalForm
import TypedAttr.Proofs.Text.Refill
/-!
# Elements that are saved again

An element that was decoded and encoded again has its normal form, and it has
none other when that is done once more (`normalFormAt_normalFormAt`). That
needs no knowledge of which types can be written: a decoded element can be
encoded just if nothing that is never written takes part in it
(`isWrittenAt_of_encodeAt`), and then it always can. So elements that were
saved once are saved again as they are (`encodeElements_again`).
-/

namespace TypedAttr

namespace Datatype

variable {options : ElementOptions} {path above name : String} {type : Datatype}
variable {members : List (String × Datatype)} {slot bytes : Bytes}

/-! ## What could be encoded -/

/-- A member that takes part has a field, decoded from where its own slot
starts. -/
theorem lookup?_decodeMembers (hnames : (names members).Nodup) (hmember : (name, type) ∈ members)
    (htakes : takesPart options (memberPath above name) type = true)
    (hlength : sizeOfMembers members ≤ bytes.length) :
    ∃ own : Bytes, type.size ≤ own.length ∧
      Value.lookup? name (decodeMembers options above members bytes) =
        some (decodeAt options (memberPath above name) type own) := by
  induction members generalizing bytes with
  | nil => cases hmember
  | cons first rest ih =>
    obtain ⟨other, otherType⟩ := first
    obtain ⟨hother, hrest⟩ := List.nodup_cons.1 hnames
    rw [sizeOfMembers] at hlength
    rcases List.mem_cons.1 hmember with hfirst | hmember
    · cases hfirst
      refine ⟨bytes, by omega, ?_⟩
      rw [decodeMembers_taken htakes]
      simp [Value.lookup?]
    · have hlater : sizeOfMembers rest ≤ (bytes.drop otherType.size).length := by
        rw [List.length_drop]
        omega
      obtain ⟨own, hown, hlookup⟩ := ih hrest hmember hlater
      refine ⟨own, hown, ?_⟩
      cases hfirst : takesPart options (memberPath above other) otherType with
      | false => rwa [decodeMembers_left hfirst]
      | true =>
        -- the field in front is of another name
        have hne : other ≠ name := by
          rintro rfl
          exact hother (List.mem_map.2 ⟨(other, type), hmember, rfl⟩)
        rw [decodeMembers_taken hfirst]
        simpa [Value.lookup?, hne] using hlookup

/-- **Where a decoded element was encoded again**, nothing that is never
written took part in it. -/
theorem isWrittenAt_of_encodeAt (hnames : type.hasDistinctNames = true)
    (hlength : type.size ≤ bytes.length)
    (h : (encodeAt options path type (decodeAt options path type bytes) slot).failure = none) :
    isWrittenAt options path type = true := by
  have hself := (written_of_encodeAt h).2
  induction type generalizing path bytes slot with
  | compound members traits ih =>
    rw [hasDistinctNames_compound] at hnames
    rw [size] at hlength
    rw [isWrittenAt, areWrittenAt_iff]
    intro member hmember htakes
    have htaken : sizeOfMembers members ≤ (bytes.take (sizeOfMembers members)).length := by
      rw [List.length_take]
      omega
    obtain ⟨own, hown, hlookup⟩ := lookup?_decodeMembers hnames.1 hmember htakes htaken
    rw [decodeAt, readSlot, if_neg (by omega), encodeAt, settle?_eq_none rfl rfl rfl] at h
    obtain ⟨slot, hencoded⟩ := encodeMembers_failure h hmember htakes hlookup
    exact ih member hmember (hnames.2 member hmember) hown hencoded (written_of_encodeAt hencoded).2
  | array base extents traits ih =>
    rw [hasDistinctNames_array] at hnames
    rw [size] at hlength
    rw [isWrittenAt, Bool.or_eq_true, beq_iff_eq]
    by_cases hnone : gridSize extents = 0
    · exact .inl hnone
    · right
      rw [decodeAt, readSlot, if_neg (by omega), encodeAt, settle?_eq_none rfl rfl rfl] at h
      simp only [List.length_map, List.length_range, if_true] at h
      -- there is a first item, and it was encoded
      have hfirst : 0 ∈ List.range (gridSize extents) := List.mem_range.2 (by omega)
      obtain ⟨own, hencoded⟩ := Overlay.run_failure h _ (List.mem_map_of_mem hfirst)
      have hbase : base.size ≤ gridSize extents * base.size :=
        Nat.le_mul_of_pos_left _ (by omega)
      refine ih hnames ?_ hencoded (written_of_encodeAt hencoded).2
      rw [List.length_drop, List.length_take]
      omega
  | _ => simp [isWrittenAt, hself]

/-! ## Lengths of normal forms -/

theorem length_keepSized (sizes : List Nat) (slot : Bytes) :
    (keepSized sizes slot).length = slot.length := by
  unfold keepSized
  split
  · rfl
  · exact Bytes.length_zeros _

/-- A text slot in normal form is filled with the text in it, or with all of
its bytes. -/
theorem normalText_eq_fill (options : ElementOptions) (padding : Padding) (slot : Bytes) :
    normalText options padding slot =
      padding.fill
        (if options.convertText && (padding.text? slot).isSome then padding.trim slot else slot)
        slot.length := by
  rw [normalText]
  split
  · rw [Padding.fill_eq_finish, List.take_of_length_le (padding.length_trim_le slot)]
  · exact (padding.fill_of_length_eq rfl).symm

theorem length_normalText (options : ElementOptions) (padding : Padding) (slot : Bytes) :
    (normalText options padding slot).length = slot.length := by
  rw [normalText_eq_fill, Padding.length_fill]

theorem length_normalMembers
    (hmembers : ∀ member ∈ members, ∀ path (slot : Bytes), slot.length = member.2.size →
      (normalFormAt options path member.2 slot).length = member.2.size)
    (hlength : slot.length = sizeOfMembers members) :
    (normalMembers options above members slot).length = sizeOfMembers members := by
  induction members generalizing slot with
  | nil => rfl
  | cons member rest ih =>
    obtain ⟨name, type⟩ := member
    rw [sizeOfMembers] at hlength ⊢
    have hown : (slot.take type.size).length = type.size := List.length_take_of_le (by omega)
    have hlater : (slot.drop type.size).length = sizeOfMembers rest := by
      rw [List.length_drop]
      omega
    have hrest := ih (fun member hmember => hmembers member (List.mem_cons_of_mem _ hmember)) hlater
    rw [normalMembers, List.length_append, hrest]
    split
    · rw [hmembers (name, type) (by simp) _ _ hown]
    · rw [Bytes.length_zeros]

/-- **A normal form is as long as what it is of.** -/
theorem length_normalFormAt (options : ElementOptions) (path : String)
    (hlength : slot.length = type.size) :
    (normalFormAt options path type slot).length = type.size := by
  induction type generalizing path slot with
  | compound members traits ih =>
    refine length_normalMembers (fun member hmember path slot hslot => ?_) hlength
    exact ih member hmember path hslot
  | array base extents traits ih =>
    rw [size] at hlength ⊢
    rw [normalFormAt]
    refine (length_flatMap fun i hi => ih path ?_).trans ?_
    · have hfits := Nat.mul_le_mul_right base.size (List.mem_range.1 hi)
      rw [Nat.succ_mul] at hfits
      rw [List.length_take, List.length_drop]
      omega
    · rw [List.length_range]
  | integer | float | enumeration => exact (length_keepSized _ slot).trans hlength
  | fixedText => exact (length_normalText _ _ slot).trans hlength
  | bitfield | reference => exact hlength
  | blob | time | noClass | varText | sequence => exact (Bytes.length_zeros _).trans hlength

/-! ## Normal forms are their own -/

theorem keepSized_keepSized (sizes : List Nat) (slot : Bytes) :
    keepSized sizes (keepSized sizes slot) = keepSized sizes slot := by
  by_cases hsize : slot.length ∈ sizes
  · have hkept : keepSized sizes slot = slot := if_pos hsize
    rw [hkept, hkept]
  · have hzeros : keepSized sizes slot = Bytes.zeros slot.length := if_neg hsize
    have hagain : keepSized sizes (Bytes.zeros slot.length) = Bytes.zeros slot.length := by
      rw [keepSized, Bytes.length_zeros, if_neg hsize]
    rw [hzeros, hagain]

/-- **Text is filled up once.** Even if the end that a terminated slot gets
falls within a character, so that the slot is read as bytes from then on, it
stays as it is; and so it does if the end is what made its bytes a text. -/
theorem normalText_normalText (options : ElementOptions) (padding : Padding) (slot : Bytes) :
    normalText options padding (normalText options padding slot) =
      normalText options padding slot := by
  have hfill := normalText_eq_fill options padding slot
  rw [normalText_eq_fill options padding (normalText options padding slot),
    length_normalText options padding slot]
  split
  · next htold =>
    -- the slot is read as text now
    by_cases hbefore : (options.convertText && (padding.text? slot).isSome) = true
    · -- as it was before
      rw [if_pos hbefore] at hfill
      rw [hfill]
      exact padding.fill_trim_fill_trim rfl
    · -- it was not before, so its end is new
      rw [if_neg hbefore] at hfill
      have htrim : padding.trim (normalText options padding slot) =
          slot.take (padding.room slot.length) := by
        rw [hfill, Padding.trim_fill_eq]
        refine (padding.trim_take_room rfl).resolve_left fun hsame => hbefore ?_
        rwa [Padding.text?, hfill, Padding.trim_fill_eq, hsame, ← Padding.text?] at htold
      rw [htrim, Padding.fill_take_room, hfill]
  · rw [hfill, Padding.fill_fill]

theorem normalMembers_normalMembers
    (hmembers : ∀ member ∈ members, ∀ path (slot : Bytes), slot.length = member.2.size →
      normalFormAt options path member.2 (normalFormAt options path member.2 slot) =
        normalFormAt options path member.2 slot)
    (hlength : slot.length = sizeOfMembers members) :
    normalMembers options above members (normalMembers options above members slot) =
      normalMembers options above members slot := by
  induction members generalizing slot with
  | nil => rfl
  | cons member rest ih =>
    obtain ⟨name, type⟩ := member
    rw [sizeOfMembers] at hlength
    have hown : (slot.take type.size).length = type.size := List.length_take_of_le (by omega)
    have hlater : (slot.drop type.size).length = sizeOfMembers rest := by
      rw [List.length_drop]
      omega
    have hrest := ih (fun member hmember => hmembers member (List.mem_cons_of_mem _ hmember)) hlater
    rw [normalMembers]
    split
    · next htakes =>
      have hfirst : (normalFormAt options (memberPath above name) type
          (slot.take type.size)).length = type.size := length_normalFormAt _ _ hown
      rw [normalMembers, if_pos htakes, List.take_left' hfirst, List.drop_left' hfirst, hrest,
        hmembers (name, type) (by simp) _ _ hown]
    · next hleft =>
      have hfirst : (Bytes.zeros type.size).length = type.size := Bytes.length_zeros _
      rw [normalMembers, if_neg hleft, List.drop_left' hfirst, hrest]

/-- **A normal form is its own normal form**, whatever the tree. -/
theorem normalFormAt_normalFormAt (options : ElementOptions) (path : String)
    (hlength : slot.length = type.size) :
    normalFormAt options path type (normalFormAt options path type slot) =
      normalFormAt options path type slot := by
  induction type generalizing path slot with
  | compound members traits ih =>
    refine normalMembers_normalMembers (fun member hmember path slot hslot => ?_) hlength
    exact ih member hmember path hslot
  | array base extents traits ih =>
    rw [size] at hlength
    have hitem : ∀ i ∈ List.range (gridSize extents),
        ((slot.drop (i * base.size)).take base.size).length = base.size := by
      intro i hi
      have hfits := Nat.mul_le_mul_right base.size (List.mem_range.1 hi)
      rw [Nat.succ_mul] at hfits
      rw [List.length_take, List.length_drop]
      omega
    rw [normalFormAt, normalFormAt, List.flatMap_def, List.flatMap_def]
    refine congrArg List.flatten (List.map_congr_left fun i hi => ?_)
    rw [← List.flatMap_def, take_drop_flatMap (fun i hi => length_normalFormAt _ _ (hitem i hi))
      (by simpa using hi), List.getElem_range]
    exact ih path (hitem i hi)
  | integer | float | enumeration => exact keepSized_keepSized _ _
  | fixedText => exact normalText_normalText _ _ _
  | bitfield | reference => rfl
  | blob | time | noClass | varText | sequence =>
    rw [normalFormAt, normalFormAt, Bytes.length_zeros]

/-! ## Elements back to back -/

/-- Where all items have a result, each has. -/
theorem exists_of_mapM_ok {α β : Type} {f : α → Except Error β} {items : List α} {images : List β}
    (h : items.mapM f = .ok images) : ∀ item ∈ items, ∃ image, f item = .ok image := by
  induction items generalizing images with
  | nil => simp
  | cons first rest ih =>
    rw [List.mapM_cons] at h
    obtain ⟨image, hfirst, h⟩ := exceptBind_ok h
    obtain ⟨later, hrest, -⟩ := exceptBind_ok h
    intro item hitem
    rcases List.mem_cons.1 hitem with rfl | hitem
    · exact ⟨image, hfirst⟩
    · exact ih hrest item hitem

/-- Slots that were joined are cut apart again. -/
theorem slots_flatMap {α : Type} {piece : α → Bytes} {step : Nat} {items : List α}
    (h : ∀ item ∈ items, (piece item).length = step) :
    slots step items.length (items.flatMap piece) = items.map piece := by
  rw [slots]
  refine List.ext_getElem (by simp) fun i hi _ => ?_
  rw [List.getElem_map, List.getElem_range, List.getElem_map]
  exact take_drop_flatMap h _

/-- **Elements that are saved again**: where decoded elements can be encoded,
they are encoded as their normal forms, and those are saved again as they
are. -/
theorem encodeElements_again {count : Nat} {packed saved : Bytes}
    (hnames : type.hasDistinctNames = true) (hlength : packed.length = count * type.size)
    (h : type.encodeElements options (type.decodeElements options count packed) = .ok saved) :
    saved.length = count * type.size ∧
      type.encodeElements options (type.decodeElements options count saved) = .ok saved := by
  have hslots : ∀ slot ∈ slots type.size count packed, slot.length = type.size :=
    fun slot => length_of_mem_slots hlength
  have hnormal : ∀ slot ∈ slots type.size count packed,
      (type.normalForm options slot).length = type.size :=
    fun slot hslot => length_normalFormAt options "" (hslots slot hslot)
  have hcount : (slots type.size count packed).length = count := by simp [slots]
  rw [decodeElements_eq_map hlength] at h
  -- every element was encoded, and so can every other of its length be
  have hencoded : ∀ slot ∈ slots type.size count packed, ∀ other : Bytes,
      other.length = type.size →
        type.encode options (type.decode options other) = .ok (type.normalForm options other) := by
    intro slot hslot other hother
    have heach := h
    rw [encodeElements_eq_mapM, List.mapM_map] at heach
    obtain ⟨images, himages, -⟩ := exceptBind_ok heach
    obtain ⟨image, himage⟩ := exists_of_mapM_ok himages slot hslot
    have hwritten := isWrittenAt_of_encodeAt hnames (Nat.le_of_eq (hslots slot hslot).symm)
      (Overlay.toExcept_eq_ok.1 himage).1
    rw [encode, decode, encodeAt_decodeAt_of_written hnames hwritten hother,
      Overlay.toExcept_untouched, normalForm]
  have hfirst := encodeElements_map fun slot hslot => hencoded slot hslot slot (hslots slot hslot)
  rw [h] at hfirst
  obtain rfl := Except.ok.inj hfirst
  have hsaved : ((slots type.size count packed).flatMap (type.normalForm options)).length =
      count * type.size := by
    rw [length_flatMap hnormal, hcount]
  refine ⟨hsaved, ?_⟩
  have hcut : slots type.size count
      ((slots type.size count packed).flatMap (type.normalForm options)) =
        (slots type.size count packed).map (type.normalForm options) := by
    have hjoined := slots_flatMap hnormal
    rwa [hcount] at hjoined
  rw [decodeElements_eq_map hsaved, hcut, List.map_map]
  refine encodeElements_map fun slot hslot => ?_
  rw [Function.comp_apply, hencoded slot hslot _ (hnormal slot hslot)]
  exact congrArg Except.ok (normalFormAt_normalFormAt options "" (hslots slot hslot))

end Datatype

end TypedAttr
