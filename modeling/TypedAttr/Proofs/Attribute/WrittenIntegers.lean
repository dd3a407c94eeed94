import TypedAttr.Proofs.Attribute.PlainWrites
import TypedAttr.Proofs.Data.Words
/-!
# Integers written and read back

An attribute of machine integers is read as words of its own kind. Which
words of another kind can be written is `IntKind.Takes`, and what they are
read back as are the words that their numbers wrap to. Numbers of another
width are never changed by that: they are narrowed if they are in range, and
refused if they are not. Words of the attribute's own width are stored
without a look at their numbers, so they are read with the attribute's sign.
-/

namespace TypedAttr

namespace Memory

namespace StoredAttribute

variable {stored : StoredAttribute} {attr : Attribute} {s : Store}
variable {bytes : Nat} {signed : Bool} {traits : Traits} {size : WordSize}
variable {kind : IntKind} {words : List (BitVec kind.bits)}

/-- Integers are let through, if anything is. -/
theorem preflight_integers_iff (htype : stored.type = .integer bytes signed traits) :
    stored.source.preflight (.ints kind words) = .ok () ↔ stored.readOnly = false := by
  refine preflight_plain_iff ?_ rfl
  rw [htype]
  exact ⟨rfl, rfl, rfl, rfl⟩

/-- **What integers are packed to**, if there is one per element and they are
taken. -/
theorem packs_integers_iff (htype : stored.type = .integer bytes signed traits)
    (hsize : WordSize.ofBytes? bytes = some size) (options : ElementOptions)
    (payload : Data.Payload) :
    stored.Packs options (.ints kind words) payload ↔
      words.length = stored.space.numElements ∧ IntKind.Takes ⟨size, signed⟩ kind words ∧
        payload = .packed (traits.order.writeWords
          (IntKind.rewrap ⟨size, signed⟩ kind words)) := by
  have hwidth : WordSize.ofBytes? (Datatype.integer bytes signed traits).size = some size := hsize
  constructor
  · rintro ⟨hpack, -⟩
    rw [htype] at hpack
    obtain ⟨_, hcount, hpack⟩ := exceptBind_ok hpack
    obtain ⟨packed, hpack, hpayload⟩ := exceptBind_ok hpack
    obtain ⟨htakes, rfl⟩ := (Data.packIntegers_iff hwidth packed).1 hpack
    exact ⟨(Data.checkCount_ok hcount).symm, htakes, (Except.ok.inj hpayload).symm⟩
  · rintro ⟨hcount, htakes, rfl⟩
    have hpack := (Data.packIntegers_iff hwidth _).2 ⟨htakes, rfl⟩
    refine ⟨?_, ?_⟩
    · simp only [htype, Data.pack, Data.length, hcount, Data.checkCount_self, hpack]
      rfl
    · have hbytes : size.bytes = bytes := WordSize.bytes_of_ofBytes? hsize
      rw [FitsSpace, ByteOrder.length_writeWords, IntKind.rewrap, List.length_map, hcount, htype,
        Datatype.size, hbytes]

/-- Words that are stored are read again. -/
theorem view_integers (htype : stored.type = .integer bytes signed traits)
    (hsize : WordSize.ofBytes? bytes = some size) (options : ElementOptions)
    (back : List (BitVec (8 * size.bytes))) (hcount : back.length = stored.space.numElements) :
    stored.view options (.packed (traits.order.writeWords back)) =
      .ok (.ints ⟨size, signed⟩ back) := by
  have hbytes : size.bytes = bytes := WordSize.bytes_of_ofBytes? hsize
  have hlength : (traits.order.writeWords back).length = stored.space.numElements * bytes := by
    rw [ByteOrder.length_writeWords, hcount, hbytes]
  unfold view
  simp only [htype, Datatype.size, hlength, if_true, Data.ofPacked, hsize,
    ByteOrder.readWords_writeWords _ size.bytes_pos]

/-- **Integers that are written are read back**, as the words of the
attribute's kind that their numbers wrap to. They can be written just if there
is one for each element and the attribute takes words of their kind. The
numbers are the same just if they are all in range, and they always are but
for words of the attribute's own width with the other sign. What cannot be
written changes nothing. -/
theorem read_of_writtenIntegers (attr : Attribute) (words : List (BitVec kind.bits))
    (htype : stored.type = .integer bytes signed traits)
    (hsize : WordSize.ofBytes? bytes = some size) (hfaults : s.file.faults = []) :
    let target : IntKind := ⟨size, signed⟩
    let written := Attribute.write stored.source (.ints kind words) (attr, s)
    ((∃ state', written = .ok () state') ↔
      stored.readOnly = false ∧ words.length = stored.space.numElements ∧
        target.Takes kind words) ∧
    (∀ state', written = .ok () state' → ∃ back w,
      Attribute.read stored.source state' = .ok (.ints target back) w ∧
      back = words.map (fun word => BitVec.ofInt target.bits (kind.toInt word)) ∧
      (back.map target.toInt = words.map kind.toInt ↔
        ∀ word ∈ words, target.fits (kind.toInt word) = true) ∧
      ((kind.size = size → kind.signed = signed) →
        back.map target.toInt = words.map kind.toInt)) ∧
    ∀ e attr' s', written = .error e (attr', s') → attr' = attr ∧ s'.content = s.content := by
  intro target written
  have hpaths : (Data.ints kind words).paths? stored.type = none := rfl
  refine ⟨?_, ?_, ?_⟩
  · rw [write_iff_packs hpaths hfaults, preflight_integers_iff htype]
    simp only [packs_integers_iff htype hsize]
    constructor
    · rintro ⟨hwritable, payload, hcount, htakes, -⟩
      exact ⟨hwritable, hcount, htakes⟩
    · rintro ⟨hwritable, hcount, htakes⟩
      exact ⟨hwritable, _, hcount, htakes, rfl⟩
  · intro state' hwrite
    obtain ⟨payload, hpacks, hread⟩ := read_of_write hpaths hfaults hwrite
    obtain ⟨hcount, htakes, rfl⟩ := (packs_integers_iff htype hsize _ _).1 hpacks
    have hback : (target.rewrap kind words).length = stored.space.numElements := by
      rw [IntKind.rewrap, List.length_map, hcount]
    obtain ⟨w, hread⟩ := hread _ (view_integers htype hsize _ _ hback)
    refine ⟨_, _, hread, rfl, IntKind.toInt_rewrap_iff, fun hsign => ?_⟩
    exact IntKind.toInt_rewrap_iff.2 (htakes.fits hsign)
  · intro e attr' s' herror
    exact unchanged_of_write_error herror

/-- A byte without a sign takes words of one byte whatever their sign: minus
one is written to it, and two hundred and fifty-five is read back. Of two
bytes with a sign, three hundred is refused. -/
theorem read_of_writtenIntegers_negative :
    let stored : StoredAttribute :=
      { name := "a", type := .ofInteger 1 false, space := .line 1 }
    let attr : Attribute := .ofSpace stored.space .defaults
    let s : Store := ⟨.ofPath "f.h5", .blank stored.type stored.space⟩
    let narrow : IntKind := ⟨.one, true⟩
    let wide : IntKind := ⟨.two, true⟩
    (∃ state' back w,
      Attribute.write stored.source (.ints narrow [-1]) (attr, s) = .ok () state' ∧
      Attribute.read stored.source state' = .ok (.ints ⟨.one, false⟩ back) w ∧
      [(-1 : BitVec 8)].map narrow.toInt = [-1] ∧
      back.map (IntKind.toInt ⟨.one, false⟩) = [255]) ∧
    ¬∃ state', Attribute.write stored.source (.ints wide [300]) (attr, s) = .ok () state' := by
  intro stored attr s narrow wide
  have htype : stored.type = .integer 1 false {} := rfl
  constructor
  · let words : List (BitVec narrow.bits) := [-1]
    obtain ⟨hwrites, hreads, -⟩ := read_of_writtenIntegers attr words htype rfl (s := s) rfl
    obtain ⟨state', hwrite⟩ := hwrites.2 ⟨rfl, rfl, .inl rfl⟩
    obtain ⟨back, w, hread, rfl, -⟩ := hreads state' hwrite
    exact ⟨state', _, w, hwrite, hread, by decide, by decide⟩
  · let words : List (BitVec wide.bits) := [300]
    rw [(read_of_writtenIntegers attr words htype rfl (s := s) rfl).1]
    rintro ⟨-, -, hsize | ⟨-, -, -, hfits⟩⟩
    · cases hsize
    · exact absurd (hfits 300 (List.mem_singleton.2 rfl)) (by decide)

end StoredAttribute

end Memory

end TypedAttr
