import TypedAttr.Proofs.Data.TextSlots
import TypedAttr.Proofs.Data.Words
import TypedAttr.Proofs.Element.Resaving
/-!
# Data that are saved again

Packed bytes are read as data, and the data are packed again. Words and
tokens are packed as they were read, and so are texts that were read as
bytes; texts are filled up anew, and elements with structure take their
normal forms. Whatever the type, what was packed once is packed again as it
is (`pack_ofPacked_again`).
-/

namespace TypedAttr

namespace Data

variable {type : Datatype} {options : ElementOptions} {count : Nat} {packed : Bytes}
variable {payload : Payload} {size : Nat} {traits : Traits}

/-- Packed bytes that are read and packed as they are. -/
def Saved (type : Datatype) (options : ElementOptions) (count : Nat) (saved : Bytes) : Prop :=
  saved.length = count * type.size ∧
    (ofPacked type options count saved).pack type options count = .ok (.packed saved)

/-! ## Words and tokens -/

theorem saved_integers {bytes : Nat} {signed : Bool} {word : WordSize}
    (hword : WordSize.ofBytes? bytes = some word) (hlength : packed.length = count * bytes)
    (h : (ofPacked (.integer bytes signed traits) options count packed).pack
      (.integer bytes signed traits) options count = .ok payload) : payload = .packed packed := by
  have hbytes : bytes = word.bytes := (WordSize.bytes_of_ofBytes? hword).symm
  have hsize : (Datatype.integer bytes signed traits).size =
      (IntKind.mk word signed).size.bytes := hbytes
  simp only [ofPacked, hword] at h
  obtain ⟨_, -, hpack⟩ := exceptBind_ok h
  rw [packIntegers_of_kind hsize] at hpack
  rw [← Except.ok.inj hpack]
  exact congrArg Payload.packed (ByteOrder.writeWords_readWords _ (hbytes ▸ hlength))

theorem saved_floats {bytes : Nat} {format : FloatFormat}
    (hformat : FloatFormat.ofBytes? bytes = some format) (hquad : format ≠ .quad)
    (hlength : packed.length = count * bytes)
    (h : (ofPacked (.float bytes traits) options count packed).pack
      (.float bytes traits) options count = .ok payload) : payload = .packed packed := by
  obtain rfl := FloatFormat.bytes_of_ofBytes? hformat
  simp only [ofPacked, hformat] at h
  obtain ⟨_, -, hpack⟩ := exceptBind_ok h
  rw [packFloats_of_format hquad] at hpack
  rw [← Except.ok.inj hpack]
  exact congrArg Payload.packed (ByteOrder.writeWords_readWords _ hlength)

theorem saved_references {flavor : ReferenceFlavor}
    (hlength : packed.length = count * flavor.tokenSize)
    (h : (ofPacked (.reference flavor traits) options count packed).pack
      (.reference flavor traits) options count = .ok payload) : payload = .packed packed := by
  -- tokens are as long as the slots that they were read from
  have hslots : packTokens (.reference flavor traits) (Token.split flavor.tokenSize packed) =
      .ok packed := by
    have hsizes : ∀ token ∈ Token.split flavor.tokenSize packed,
        token.size = (Datatype.reference flavor traits).size := by
      intro token htoken
      obtain ⟨slot, hslot, rfl⟩ := List.mem_map.1 htoken
      exact length_of_mem_wholeChunks hslot
    rw [packTokens_of_sizes hsizes, Token.split, List.map_map]
    exact congrArg Except.ok ((congrArg List.flatten (List.map_id _)).trans
      (flatten_wholeChunks hlength))
  cases flavor with
  | object =>
    obtain ⟨_, -, hpack⟩ := exceptBind_ok h
    rw [← Except.ok.inj hpack]
    exact congrArg Payload.packed (ByteOrder.writeWords_readWords _ hlength)
  | region | standard =>
    obtain ⟨_, -, hpack⟩ := exceptBind_ok h
    obtain ⟨bytes, hbytes, hpayload⟩ := exceptBind_ok hpack
    rw [← Except.ok.inj (hslots.symm.trans hbytes)] at hpayload
    exact (Except.ok.inj hpayload).symm

/-! ## Texts -/

theorem length_of_textsOfPacked? {padding : Padding} {items : List String} (hsize : 0 < size)
    (hlength : packed.length = count * size)
    (htexts : textsOfPacked? padding size count packed = some items) : items.length = count := by
  rw [textsOfPacked?_eq_mapM hsize hlength, mapM_eq_some_iff] at htexts
  have hcount := congrArg List.length htexts
  rw [List.length_map, List.length_map, length_wholeChunks, hlength,
    Nat.mul_div_cancel _ hsize] at hcount
  exact hcount.symm

/-- Slots that are all text are packed as their normal forms. -/
theorem textSlots_of_textsOfPacked? {padding : Padding} {items : List String}
    (hconvert : options.convertText = true) (hsize : 0 < size)
    (hlength : packed.length = count * size)
    (htexts : textsOfPacked? padding size count packed = some items) :
    textSlots padding size items =
      (wholeChunks size packed).flatMap (Datatype.normalText options padding) := by
  rw [textsOfPacked?_eq_mapM hsize hlength, mapM_eq_some_iff] at htexts
  have hslots : items.map (fun item => padding.fill (Text.utf8 item) size) =
      (wholeChunks size packed).map (Datatype.normalText options padding) := by
    refine List.ext_getElem (by simpa using (congrArg List.length htexts).symm) fun i hi hi' => ?_
    rw [List.length_map] at hi hi'
    have htext := congrArg (·[i]?) htexts
    simp only [List.getElem?_map, List.getElem?_eq_getElem hi, List.getElem?_eq_getElem hi',
      Option.map_some, Option.some_inj] at htext
    have hslot : (wholeChunks size packed)[i].length = size :=
      length_of_mem_wholeChunks (List.getElem_mem hi')
    rw [List.getElem_map, List.getElem_map, Datatype.normalText_eq_fill, hconvert, htext, hslot,
      Text.utf8_of_ofUtf8? htext]
    rfl
  rw [textSlots, List.flatMap_def, hslots, List.flatMap_def]

/-- Slots that are read as bytes are packed as they are. -/
theorem pack_raw (hlength : packed.length = count * type.size) :
    (Data.raw packed).pack type options count = .ok (.packed packed) := by
  simp only [pack, hlength, checkCount_self]
  rfl

/-- Texts that were filled up once are packed as they are. -/
theorem saved_textSlots {items : List String} (hconvert : options.convertText = true)
    (hsize : 0 < size) (hlength : packed.length = count * size)
    (htexts : textsOfPacked? traits.padding size count packed = some items) :
    Saved (.fixedText size traits) options count (textSlots traits.padding size items) := by
  let normal := Datatype.normalText options traits.padding
  have hchunks : ∀ slot ∈ wholeChunks size packed, slot.length = size :=
    fun slot => length_of_mem_wholeChunks
  have hnormal : ∀ slot ∈ (wholeChunks size packed).map normal, slot.length = size := by
    intro slot hslot
    obtain ⟨chunk, hchunk, rfl⟩ := List.mem_map.1 hslot
    rw [Datatype.length_normalText, hchunks chunk hchunk]
  have hsaved := textSlots_of_textsOfPacked? hconvert hsize hlength htexts
  have hcut : wholeChunks size (textSlots traits.padding size items) =
      (wholeChunks size packed).map normal := by
    rw [hsaved, List.flatMap_def, wholeChunks_flatten hsize hnormal]
  have hcount : (textSlots traits.padding size items).length = count * size := by
    rw [length_textSlots, length_of_textsOfPacked? hsize hlength htexts]
  refine ⟨hcount, ?_⟩
  cases hagain : textsOfPacked? traits.padding size count
      (textSlots traits.padding size items) with
  | none =>
    rw [ofPacked, if_pos hconvert, hagain]
    exact pack_raw hcount
  | some others =>
    rw [ofPacked, if_pos hconvert, hagain]
    refine pack_texts_iff.2 ⟨length_of_textsOfPacked? hsize hcount hagain, ?_⟩
    rw [textSlots_of_textsOfPacked? hconvert hsize hcount hagain, hcut, hsaved, List.flatMap_def,
      List.flatMap_def, List.map_map]
    refine congrArg (fun slots => Payload.packed (List.flatten slots)) ?_
    refine List.map_congr_left fun slot _ => ?_
    exact (Datatype.normalText_normalText options traits.padding slot).symm

/-- **Texts that are packed again**, or bytes where not all slots are text. -/
theorem saved_texts (hlength : packed.length = count * size)
    (h : (ofPacked (.fixedText size traits) options count packed).pack
      (.fixedText size traits) options count = .ok payload) :
    ∃ saved, payload = .packed saved ∧ Saved (.fixedText size traits) options count saved := by
  have hself (hsame : payload = .packed packed) :
      ∃ saved, payload = .packed saved ∧ Saved (.fixedText size traits) options count saved :=
    ⟨packed, hsame, hlength, hsame ▸ h⟩
  by_cases hconvert : options.convertText = true
  · have hread := h
    rw [ofPacked, if_pos hconvert] at hread
    cases htexts : textsOfPacked? traits.padding size count packed with
    | none =>
      rw [htexts, pack_raw hlength] at hread
      exact hself (Except.ok.inj hread).symm
    | some items =>
      rw [htexts, pack_texts_iff] at hread
      obtain ⟨hcount, rfl⟩ := hread
      rcases Nat.eq_zero_or_pos size with rfl | hsize
      · -- slots without bytes are none before and after
        have hnone : packed = [] := List.eq_nil_of_length_eq_zero (by simpa using hlength)
        have hslots : textSlots traits.padding 0 items = [] :=
          List.eq_nil_of_length_eq_zero (by simp [length_textSlots])
        exact hself (by rw [hnone, hslots])
      · exact ⟨_, rfl, saved_textSlots hconvert hsize hlength htexts⟩
  · have hread := h
    rw [ofPacked, if_neg hconvert, pack_raw hlength] at hread
    exact hself (Except.ok.inj hread).symm

/-! ## All data -/

/-- **Data that were read are packed once.** If they can be packed, what they
are packed to is read as data that are packed to just that, whatever the
type. -/
theorem pack_ofPacked_again (hnames : type.hasDistinctNames = true)
    (hvar : type.isVarText = false) (hwide : type.leafBase.isWideFloat = false)
    (hlength : packed.length = count * type.size)
    (h : (ofPacked type options count packed).pack type options count = .ok payload) :
    ∃ saved, payload = .packed saved ∧ Saved type options count saved := by
  have hself (hsame : payload = .packed packed) :
      ∃ saved, payload = .packed saved ∧ Saved type options count saved :=
    ⟨packed, hsame, hlength, hsame ▸ h⟩
  by_cases hvalues : type.isReadAsValues = true
  · rw [ofPacked_of_isReadAsValues hvalues] at h
    obtain ⟨_, -, hpack⟩ := exceptBind_ok h
    obtain ⟨saved, hencode, hpayload⟩ := exceptBind_ok hpack
    obtain ⟨hsaved, hagain⟩ := Datatype.encodeElements_again hnames hlength hencode
    refine ⟨saved, (Except.ok.inj hpayload).symm, hsaved, ?_⟩
    have hcount := type.length_decodeElements options count saved
    rw [ofPacked_of_isReadAsValues hvalues]
    simp only [pack, hcount, checkCount_self, hagain]
    rfl
  cases type with
  | integer bytes signed traits =>
    obtain ⟨word, hword⟩ : ∃ word, WordSize.ofBytes? bytes = some word := by
      simpa [Datatype.isReadAsValues, Option.ne_none_iff_exists'] using hvalues
    exact hself (saved_integers hword hlength h)
  | float bytes traits =>
    obtain ⟨format, hformat⟩ : ∃ format, FloatFormat.ofBytes? bytes = some format := by
      simpa [Datatype.isReadAsValues, Option.ne_none_iff_exists'] using hvalues
    have hquad : format ≠ .quad := by
      rintro rfl
      have hbytes := FloatFormat.bytes_of_ofBytes? hformat
      subst hbytes
      cases hwide
    exact hself (saved_floats hformat hquad hlength h)
  | fixedText size traits => exact saved_texts hlength h
  | varText traits => cases hvar
  | array base extents traits =>
    have hnarrow : (Datatype.array base extents traits).isReadAsValues = true := by
      rw [Datatype.isReadAsValues, Bool.not_eq_true']
      exact hwide
    exact absurd hnarrow hvalues
  | reference flavor traits => exact hself (saved_references hlength h)
  | _ => exact absurd rfl hvalues

/-- Data are wide floats only where the type's leaves are. -/
theorem isWideFloat_ofPacked (h : type.leafBase.isWideFloat = false) :
    (ofPacked type options count packed).isWideFloat = false := by
  by_cases hvalues : type.isReadAsValues = true
  · rw [ofPacked_of_isReadAsValues hvalues]
    rfl
  cases type with
  | integer bytes signed traits =>
    cases hword : WordSize.ofBytes? bytes <;> simp only [ofPacked, hword] <;> rfl
  | float bytes traits =>
    cases hformat : FloatFormat.ofBytes? bytes with
    | none =>
      simp only [ofPacked, hformat]
      rfl
    | some format =>
      simp only [ofPacked, hformat]
      cases format with
      | quad =>
        obtain rfl := FloatFormat.bytes_of_ofBytes? hformat
        cases h
      | half | single | double => rfl
  | fixedText size traits =>
    by_cases hconvert : options.convertText = true
    · rw [ofPacked, if_pos hconvert]
      cases textsOfPacked? traits.padding size count packed <;> rfl
    · rw [ofPacked, if_neg hconvert]
      rfl
  | varText traits => rfl
  | array base extents traits =>
    rw [Datatype.isReadAsValues, Bool.not_eq_true'] at hvalues
    exact absurd h hvalues
  | reference flavor traits => cases flavor <;> rfl
  | _ => exact absurd rfl hvalues

/-- References are never read as paths. -/
theorem paths?_ofPacked (type : Datatype) (options : ElementOptions) (count : Nat)
    (packed : Bytes) : (ofPacked type options count packed).paths? type = none := by
  cases hdata : ofPacked type options count packed with
  | texts items =>
    -- only slots of text are read as texts
    cases type with
    | reference flavor traits => cases flavor <;> cases hdata
    | _ => rfl
  | _ => rfl

end Data

end TypedAttr
