import TypedAttr.Proofs.Attribute.PlainWrites
import TypedAttr.Proofs.Data.TextSlots
/-!
# Texts of fixed width written and read back

Any texts can be written to slots of fixed width, and each is cut to its
slot. They are read back as texts, each a front of what was written, if no
cut falls within a character that is still seen (`Padding.LeavesText`). One
such cut is enough for all of the slots to be read as bytes.
-/

namespace TypedAttr

namespace Memory

namespace StoredAttribute

variable {stored : StoredAttribute} {s : Store} {size : Nat} {traits : Traits}
variable {items : List String}

/-- Texts for slots are let through, if anything is. -/
theorem preflight_texts_iff (htype : stored.type = .fixedText size traits) :
    stored.source.preflight (.texts items) = .ok () ↔ stored.readOnly = false := by
  refine preflight_plain_iff ?_ rfl
  rw [htype]
  exact ⟨rfl, rfl, rfl, rfl⟩

/-- Any texts are packed, if there is one for each slot. -/
theorem packs_texts_iff (htype : stored.type = .fixedText size traits) (options : ElementOptions)
    (payload : Data.Payload) :
    stored.Packs options (.texts items) payload ↔
      items.length = stored.space.numElements ∧
        payload = .packed (Data.textSlots traits.padding size items) := by
  rw [Packs, htype, Data.pack_texts_iff]
  constructor
  · rintro ⟨hpack, -⟩
    exact hpack
  · rintro ⟨hcount, rfl⟩
    refine ⟨⟨hcount, rfl⟩, ?_⟩
    rw [FitsSpace, Data.length_textSlots, hcount, htype, Datatype.size]

/-- Slots that are stored are read again, one for each text. -/
theorem view_texts (htype : stored.type = .fixedText size traits) (options : ElementOptions)
    (hcount : items.length = stored.space.numElements) :
    stored.view options (.packed (Data.textSlots traits.padding size items)) =
      .ok (.ofPacked (.fixedText size traits) options items.length
        (Data.textSlots traits.padding size items)) := by
  have hlength : (Data.textSlots traits.padding size items).length =
      stored.space.numElements * size := by
    rw [Data.length_textSlots, hcount]
  rw [hcount]
  unfold view
  rw [htype]
  exact if_pos hlength

/-- **Texts that are written are read back as texts** if all cuts fall
between characters, or after a zero byte: as many as were written, each a
front of what was written, and all of it if it fits, has no zero character
and does not end in a space. If any cut falls within a character that is
seen, the bytes of all slots are read. Writing fails only for a wrong count or
an attribute that is never written. -/
theorem read_of_writtenTexts (attr : Attribute) (items : List String)
    (htype : stored.type = .fixedText size traits) (hsize : 0 < size)
    (hconvert : attr.options.convertText = true) (hfaults : s.file.faults = []) :
    let padding := traits.padding
    let written := Attribute.write stored.source (.texts items) (attr, s)
    ((∃ state', written = .ok () state') ↔
      stored.readOnly = false ∧ items.length = stored.space.numElements) ∧
    ∀ state', written = .ok () state' →
      ((∀ item ∈ items, padding.LeavesText size item) → ∃ texts w,
        Attribute.read stored.source state' = .ok (.texts texts) w ∧
        texts.length = items.length ∧
        ∀ i (hi : i < items.length), ∃ text, texts[i]? = some text ∧
          text.toList <+: items[i].toList ∧
          ((Text.utf8 items[i]).length ≤ padding.room size → '\x00' ∉ items[i].toList →
            items[i].toList.getLast? ≠ some ' ' → text = items[i])) ∧
      ((∃ item ∈ items, ¬padding.LeavesText size item) → ∃ w,
        Attribute.read stored.source state' =
          .ok (.raw (items.flatMap fun item => padding.fill (Text.utf8 item) size)) w) := by
  intro padding written
  have hpaths : (Data.texts items).paths? stored.type = none := by
    rw [htype]
    rfl
  refine ⟨?_, fun state' hwrite => ?_⟩
  · rw [write_iff_packs hpaths hfaults, preflight_texts_iff htype]
    simp only [packs_texts_iff htype]
    constructor
    · rintro ⟨hwritable, payload, hcount, -⟩
      exact ⟨hwritable, hcount⟩
    · rintro ⟨hwritable, hcount⟩
      exact ⟨hwritable, _, hcount, rfl⟩
  obtain ⟨payload, hpacks, hread⟩ := read_of_write hpaths hfaults hwrite
  obtain ⟨hcount, rfl⟩ := (packs_texts_iff htype _ _).1 hpacks
  have hview := view_texts htype attr.options hcount
  constructor
  · intro hwhole
    obtain ⟨texts, hdata, htexts⟩ := Data.ofPacked_textSlots hconvert hsize hwhole
    rw [hdata] at hview
    obtain ⟨w, hread⟩ := hread _ hview
    refine ⟨texts, w, hread, by simpa using (congrArg List.length htexts).symm, fun i hi => ?_⟩
    obtain ⟨text, htext, hitem⟩ := Data.exists_text_of_slots htexts hi
    refine ⟨text, htext, Padding.isPrefix_of_text?_fill hitem, fun hroom hzero hspace => ?_⟩
    rw [Padding.text?_fill_of_fits hroom hzero hspace] at hitem
    exact (Option.some.inj hitem).symm
  · rintro ⟨item, hmem, hsplit⟩
    rw [Data.ofPacked_textSlots_of_not hconvert hsize hmem hsplit] at hview
    exact hread _ hview

/-- A slot of one byte: a letter of one byte is read back, of a letter of two
bytes the first byte is. -/
theorem read_of_writtenTexts_cut :
    let stored : StoredAttribute :=
      { name := "a", type := .fixedText 1 { padding := .zeros }, space := .line 1 }
    let attr : Attribute := .ofSpace stored.space .defaults
    let s : Store := ⟨.ofPath "f.h5", .blank stored.type stored.space⟩
    let ReadsBack (items : List String) (data : Data) : Prop := ∃ state' w,
      Attribute.write stored.source (.texts items) (attr, s) = .ok () state' ∧
      Attribute.read stored.source state' = .ok data w
    ReadsBack ["e"] (.texts ["e"]) ∧ ReadsBack ["é"] (.raw [0xc3]) := by
  intro stored attr s ReadsBack
  have htype : stored.type = .fixedText 1 { padding := .zeros } := rfl
  constructor
  · obtain ⟨hwrites, hreads⟩ :=
      read_of_writtenTexts attr ["e"] htype (by decide) rfl (s := s) rfl
    obtain ⟨state', hwrite⟩ := hwrites.2 ⟨rfl, rfl⟩
    have hleft : ∀ item ∈ ["e"], Padding.LeavesText .zeros 1 item := by
      intro item hitem
      rw [List.mem_singleton.1 hitem]
      exact .inl ⟨"e", by decide +kernel⟩
    obtain ⟨texts, w, hread, hlength, htexts⟩ := (hreads state' hwrite).1 hleft
    obtain ⟨text, rfl⟩ := List.length_eq_one_iff.1 hlength
    obtain ⟨_, htext, -, hsame⟩ := htexts 0 (by decide)
    cases htext
    obtain rfl := hsame (by decide +kernel) (by decide) (by decide)
    exact ⟨state', w, hwrite, hread⟩
  · obtain ⟨hwrites, hreads⟩ :=
      read_of_writtenTexts attr ["é"] htype (by decide) rfl (s := s) rfl
    obtain ⟨state', hwrite⟩ := hwrites.2 ⟨rfl, rfl⟩
    have hsplit : ¬Padding.LeavesText .zeros 1 "é" := by
      rw [← Padding.isSome_text?_fill]
      decide +kernel
    obtain ⟨w, hread⟩ := (hreads state' hwrite).2 ⟨"é", List.mem_singleton.2 rfl, hsplit⟩
    have hslot : (["é"].flatMap fun item => Padding.zeros.fill (Text.utf8 item) 1) = [0xc3] := by
      decide +kernel
    rw [hslot] at hread
    exact ⟨state', w, hwrite, hread⟩

end StoredAttribute

end Memory

end TypedAttr
