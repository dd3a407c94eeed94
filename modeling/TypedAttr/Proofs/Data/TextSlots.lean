import TypedAttr.Proofs.Data.ReadForms
import TypedAttr.Proofs.Data.WriteForms
import TypedAttr.Proofs.Element.Slots
import TypedAttr.Proofs.Text.Cut
/-!
# Texts in slots of one width

Texts are packed slot by slot, each cut to its slot (`textSlots`). The packed
slots are read as texts if each of them is text (`ofPacked_textSlots`), and as
their bytes if one of them is none.
-/

namespace TypedAttr

namespace Data

variable {options : ElementOptions} {size : Nat} {traits : Traits} {items : List String}

/-- The bytes of texts in slots of fixed width. -/
def textSlots (padding : Padding) (size : Nat) (items : List String) : Bytes :=
  items.flatMap fun item => padding.fill (Text.utf8 item) size

theorem length_textSlots (padding : Padding) (size : Nat) (items : List String) :
    (textSlots padding size items).length = items.length * size :=
  length_flatMap fun _ _ => Padding.length_fill _ _ _

/-- Any texts are packed, if there is one for each slot. -/
theorem pack_texts_iff {count : Nat} {payload : Payload} :
    (Data.texts items).pack (.fixedText size traits) options count = .ok payload ↔
      items.length = count ∧ payload = .packed (textSlots traits.padding size items) := by
  constructor
  · intro hpack
    obtain ⟨_, hcount, hpayload⟩ := exceptBind_ok hpack
    exact ⟨(checkCount_ok hcount).symm, (Except.ok.inj hpayload).symm⟩
  · rintro ⟨rfl, rfl⟩
    simp only [pack, checkCount_self]
    rfl

/-- The texts in slots are those in each. -/
theorem textsOfPacked?_textSlots (hsize : 0 < size) (padding : Padding) (items : List String) :
    textsOfPacked? padding size items.length (textSlots padding size items) =
      items.mapM fun item => padding.text? (padding.fill (Text.utf8 item) size) := by
  have hslots : ∀ slot ∈ items.map fun item => padding.fill (Text.utf8 item) size,
      slot.length = size := by
    intro slot hslot
    obtain ⟨item, -, rfl⟩ := List.mem_map.1 hslot
    exact Padding.length_fill _ _ _
  rw [textsOfPacked?_eq_mapM hsize (length_textSlots padding size items), textSlots,
    List.flatMap_def, wholeChunks_flatten hsize hslots, List.mapM_map]
  rfl

/-- **Slots that were all left as text** are read as texts. -/
theorem ofPacked_textSlots (hconvert : options.convertText = true) (hsize : 0 < size)
    (h : ∀ item ∈ items, traits.padding.LeavesText size item) :
    ∃ texts, ofPacked (.fixedText size traits) options items.length
        (textSlots traits.padding size items) = .texts texts ∧
      items.map (fun item => traits.padding.text? (traits.padding.fill (Text.utf8 item) size)) =
        texts.map some := by
  have hsome : textsOfPacked? traits.padding size items.length
      (textSlots traits.padding size items) ≠ none := by
    rw [textsOfPacked?_textSlots hsize, ne_eq, mapM_eq_none_iff]
    rintro ⟨item, hmem, hnone⟩
    have hleft := Padding.isSome_text?_fill item |>.2 (h item hmem)
    rw [hnone] at hleft
    cases hleft
  obtain ⟨texts, htexts⟩ := Option.ne_none_iff_exists'.1 hsome
  refine ⟨texts, ?_, ?_⟩
  · rw [ofPacked, if_pos hconvert, htexts]
  · rwa [textsOfPacked?_textSlots hsize, mapM_eq_some_iff] at htexts

/-- Where every item has a text, each has the one at its place. -/
theorem exists_text_of_slots {text? : String → Option String} {texts : List String}
    (h : items.map text? = texts.map some) {i : Nat} (hi : i < items.length) :
    ∃ text, texts[i]? = some text ∧ text? items[i] = some text := by
  have hitem := congrArg (·[i]?) h
  simp only [List.getElem?_map, List.getElem?_eq_getElem hi, Option.map_some] at hitem
  obtain ⟨text, htext, hsame⟩ := Option.map_eq_some_iff.1 hitem.symm
  exact ⟨text, htext, hsame.symm⟩

/-- **One that was not** makes bytes of them all. -/
theorem ofPacked_textSlots_of_not (hconvert : options.convertText = true) (hsize : 0 < size)
    {item : String} (hmem : item ∈ items) (h : ¬traits.padding.LeavesText size item) :
    ofPacked (.fixedText size traits) options items.length
      (textSlots traits.padding size items) = .raw (textSlots traits.padding size items) := by
  have hnone : textsOfPacked? traits.padding size items.length
      (textSlots traits.padding size items) = none := by
    rw [textsOfPacked?_textSlots hsize, mapM_eq_none_iff]
    refine ⟨item, hmem, ?_⟩
    rwa [← Padding.isSome_text?_fill, Bool.not_eq_true, Option.isSome_eq_false_iff,
      Option.isNone_iff_eq_none] at h
  rw [ofPacked, if_pos hconvert, hnone]

end Data

end TypedAttr
