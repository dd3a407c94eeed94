import TypedAttr.Proofs.Attribute.AllOrNothing
import TypedAttr.Proofs.Attribute.Freshness
/-!
# Writes that need no tokens

All data but references that are named by path are packed without a question
to the file. For those, a write succeeds in a healthy file just if the data
are let through, can be packed, and fill the space (`write_iff_packs`), and what is
read next is what is seen of what they were packed to (`read_of_write`).
-/

namespace TypedAttr

namespace Memory

namespace StoredAttribute

variable {stored : StoredAttribute} {attr : Attribute} {s : Store} {data : Data}

/-- What is not of wide floats, sequences, region references or arrays is let
through, if anything is. -/
theorem preflight_plain_iff
    (htype : stored.type.leafBase.isWideFloat = false ∧ stored.type.isSequence = false ∧
      stored.type.flavor? = none ∧ stored.type.isArray = false)
    (hdata : data.isWideFloat = false) :
    stored.source.preflight data = .ok () ↔ stored.readOnly = false := by
  obtain ⟨hwide, hsequence, hflavor, harray⟩ := htype
  unfold AttributeSource.preflight
  simp only [source, hwide, hdata, hsequence, hflavor, harray]
  cases stored.readOnly <;> simp

/-- Data are packed as they are, if they name no paths. -/
theorem payload_of_pack (hpaths : data.paths? stored.type = none) (options : ElementOptions)
    (t : Store) :
    stored.source.payload options data t =
      Action.ofExcept (data.pack stored.type options stored.space.numElements) t := by
  have hsource : data.paths? stored.source.type = none := hpaths
  rw [AttributeSource.payload, hsource]
  rfl

/-- What data are packed to, if a write of them can succeed. -/
def Packs (stored : StoredAttribute) (options : ElementOptions) (data : Data)
    (payload : Data.Payload) : Prop :=
  data.pack stored.type options stored.space.numElements = .ok payload ∧
    stored.FitsSpace payload

theorem Packs.unique {options : ElementOptions} {payload other : Data.Payload}
    (h : stored.Packs options data payload) (hother : stored.Packs options data other) :
    payload = other :=
  Except.ok.inj (h.1.symm.trans hother.1)

/-- **What a write that succeeds has stored** is what its data are packed
to. -/
theorem packed_of_write (hpaths : data.paths? stored.type = none) {attr' : Attribute} {s' : Store}
    (hwrite : Attribute.write stored.source data (attr, s) = .ok () (attr', s')) :
    attr' = attr.clear ∧ s'.file.faults = s.file.faults ∧
      stored.source.preflight data = .ok () ∧
        ∃ payload, stored.Packs attr.options data payload ∧ s'.content = .ofPayload payload := by
  obtain ⟨hsource, rfl⟩ := Attribute.write_eq_ok hwrite
  obtain ⟨_, t, hpreflight, -⟩ := bind_ok hsource
  obtain ⟨payload, t, u, hpayload, hstore, rfl⟩ := stages_of_write hsource
  rw [payload_of_pack hpaths] at hpayload
  refine ⟨rfl, keeps_faults_write.of_ok hsource, (ofExcept_ok hpreflight).1, payload,
    ⟨(ofExcept_ok hpayload).1, (store_ok hstore).1⟩, ?_⟩
  exact (stored.content_ended s u).trans (store_ok hstore).2

/-- **Data that can be packed are written**, if nothing is made to fail. -/
theorem write_of_packs (hpaths : data.paths? stored.type = none) (hfaults : s.file.faults = [])
    (hpreflight : stored.source.preflight data = .ok ()) {payload : Data.Payload}
    (hpacks : stored.Packs attr.options data payload) :
    ∃ s', Attribute.write stored.source data (attr, s) = .ok () (attr.clear, s') ∧
      s'.content = .ofPayload payload ∧ s'.file.faults = [] := by
  have hpayload : stored.source.payload attr.options data s = .ok payload s := by
    rw [payload_of_pack hpaths, hpacks.1]
    rfl
  obtain ⟨s', hsource⟩ := write_of_payload hfaults hpreflight hpayload hpacks.2
  have hwrite : Attribute.write stored.source data (attr, s) = .ok () (attr.clear, s') := by
    rw [Attribute.write_eq, hsource]
  obtain ⟨-, hkept, -, payload', hpacks', hcontent⟩ := packed_of_write hpaths hwrite
  rw [← hpacks.unique hpacks'] at hcontent
  exact ⟨s', hwrite, hcontent, hkept.trans hfaults⟩

/-- **When a write succeeds.** -/
theorem write_iff_packs (hpaths : data.paths? stored.type = none)
    (hfaults : s.file.faults = []) :
    (∃ state', Attribute.write stored.source data (attr, s) = .ok () state') ↔
      stored.source.preflight data = .ok () ∧
        ∃ payload, stored.Packs attr.options data payload := by
  constructor
  · rintro ⟨⟨attr', s'⟩, hwrite⟩
    obtain ⟨-, -, hpreflight, payload, hpacks, -⟩ := packed_of_write hpaths hwrite
    exact ⟨hpreflight, payload, hpacks⟩
  · rintro ⟨hpreflight, payload, hpacks⟩
    obtain ⟨s', hwrite, -⟩ := write_of_packs hpaths hfaults hpreflight hpacks
    exact ⟨_, hwrite⟩

/-- A write that fails changes neither the attribute nor what is stored. -/
theorem unchanged_of_write_error {e : Error} {attr' : Attribute} {s' : Store}
    (h : Attribute.write stored.source data (attr, s) = .error e (attr', s')) :
    attr' = attr ∧ s'.content = s.content := by
  rw [Attribute.write_eq] at h
  cases hwrite : stored.source.write attr.options data s with
  | ok _ t =>
    rw [hwrite] at h
    cases h
  | error e t =>
    rw [hwrite] at h
    cases h
    exact ⟨rfl, keepsOnError_write hwrite⟩

/-- **What is read next** is the data in what is stored, if nothing is made to
fail and what the attribute keeps is not stale. -/
theorem cachedRead_of_view (hfaults : s.file.faults = []) (hfresh : stored.Fresh (attr, s))
    (hview : stored.view attr.options s.content = .ok data) :
    ∃ attr' s', Attribute.read stored.source (attr, s) = .ok data (attr', s') := by
  rw [Attribute.read_eq]
  cases hdata : attr.data with
  | some kept =>
    have hkept : stored.view attr.options s.content = .ok kept := hfresh kept hdata
    rw [hview] at hkept
    cases hkept
    exact ⟨_, _, rfl⟩
  | none =>
    obtain ⟨t, hread⟩ := read_of_view hfaults hview
    rw [hread]
    exact ⟨_, _, rfl⟩

/-- **After a write that succeeds**, what is read is what is seen of what the
data were packed to. -/
theorem read_of_write (hpaths : data.paths? stored.type = none) (hfaults : s.file.faults = [])
    {state' : Attribute × Store}
    (hwrite : Attribute.write stored.source data (attr, s) = .ok () state') :
    ∃ payload, stored.Packs attr.options data payload ∧
      ∀ found, stored.view attr.options (.ofPayload payload) = .ok found →
        ∃ w, Attribute.read stored.source state' = .ok found w := by
  obtain ⟨attr', s'⟩ := state'
  obtain ⟨rfl, hkept, -, payload, hpacks, hcontent⟩ := packed_of_write hpaths hwrite
  refine ⟨payload, hpacks, fun found hfound => ?_⟩
  have hview : stored.view attr.clear.options s'.content = .ok found := by
    rw [hcontent]
    exact hfound
  obtain ⟨attr'', s'', hread⟩ :=
    cachedRead_of_view (hkept.trans hfaults) (fresh_of_unread rfl) hview
  exact ⟨_, hread⟩

/-- A read changes nothing of an attribute but what it keeps, and nothing of
what is stored. -/
theorem unchanged_of_cachedRead {attr' : Attribute} {s' : Store}
    (h : Attribute.read stored.source (attr, s) = .ok data (attr', s')) :
    attr'.options = attr.options ∧ s'.content = s.content ∧ s'.file.faults = s.file.faults := by
  rw [Attribute.read_eq] at h
  cases hdata : attr.data with
  | some kept =>
    rw [hdata] at h
    cases h
    exact ⟨rfl, rfl, rfl⟩
  | none =>
    rw [hdata] at h
    dsimp only at h
    cases hread : stored.source.read attr.options s with
    | error e t =>
      rw [hread] at h
      cases h
    | ok found t =>
      rw [hread] at h
      cases h
      exact ⟨rfl, steady_content.keeps_read.of_ok hread, steady_faults.keeps_read.of_ok hread⟩

end StoredAttribute

end Memory

end TypedAttr
