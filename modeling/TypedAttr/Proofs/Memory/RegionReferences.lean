import TypedAttr.Proofs.Attribute.AllOrNothing
import TypedAttr.Proofs.Data.WriteForms
import TypedAttr.Proofs.Element.Placing
/-!
# Region references that are written

References to regions are made by the backend alone, and a write of them is
rejected before anything is asked. The rejection looks at the top of the
type only, though. `write_regionReferences` says which attributes it
protects, and that in all others every region reference below the top can be
overwritten with any token of its size.
-/

namespace TypedAttr

namespace Datatype

variable {type : Datatype} {leaf : Slot}

/-- An array of wide floats has no other leaves. -/
theorem isWideFloat_of_leafBase (hleaf : leaf ∈ type.layout)
    (h : type.leafBase.isWideFloat = true) : leaf.type.isWideFloat = true := by
  induction type generalizing leaf with
  | array base extents traits ih =>
    simp only [layout, List.mem_flatMap, List.mem_map] at hleaf
    obtain ⟨i, -, own, hown, rfl⟩ := hleaf
    rw [Slot.shift_type]
    exact ih hown h
  | compound => cases h
  | _ =>
    simp only [layout, List.mem_singleton] at hleaf
    rwa [hleaf]

/-- A token of a reference's size is encoded as its bytes. -/
theorem encodeAt_token {flavor : ReferenceFlavor} (hflavor : type.flavor? = some flavor)
    (options : ElementOptions) {token : Token} (htoken : token.size = type.size) (path : String) :
    encodeAt options path type (.token token) (Bytes.zeros type.size) = .untouched token.bytes := by
  cases type with
  | reference =>
    rw [encodeAt, settle?_eq_none rfl rfl rfl]
    exact encodeReference_token (htoken.trans (Bytes.length_zeros _).symm)
  | _ => cases hflavor

end Datatype

namespace Memory

namespace StoredAttribute

variable {stored : StoredAttribute} {options : ElementOptions} {leaf : Datatype.Slot}

/-- Whether values for an attribute with region references in its type are
rejected whatever they are: if nothing is written to it, if it is of region
references at the top, and if it is of arrays of compounds. -/
def rejectsRegions (stored : StoredAttribute) : Bool :=
  stored.readOnly || stored.type.flavor? = some .region ||
    (stored.type.isArray && stored.type.leafBase.isCompound)

/-- And no other values are. -/
theorem preflight_values_iff (hleaf : leaf ∈ stored.type.layout)
    (hregion : leaf.type.flavor? = some .region) (items : List Value) :
    stored.source.preflight (.values items) = .ok () ↔ stored.rejectsRegions = false := by
  -- a type with a region reference in it is neither a wide float nor a sequence
  have hnowide : leaf.type.isWideFloat = false := by
    cases hleaftype : leaf.type with
    | float => rw [hleaftype] at hregion; cases hregion
    | _ => rfl
  have hwide : stored.type.leafBase.isWideFloat = false := by
    rw [← Bool.not_eq_true]
    intro hwide
    exact absurd (hnowide.symm.trans (Datatype.isWideFloat_of_leafBase hleaf hwide)) (by decide)
  have hsequence : stored.type.isSequence = false := by
    cases htype : stored.type with
    | sequence base traits =>
      rw [htype, Datatype.layout, List.mem_singleton] at hleaf
      · rw [hleaf] at hregion
        cases hregion
      all_goals simp
    | _ => rfl
  have hvalues : (Data.values items).isWideFloat = false := rfl
  unfold AttributeSource.preflight rejectsRegions
  simp only [source, hwide, hsequence, hvalues, Bool.or_self, Bool.false_eq_true, if_false]
  cases stored.readOnly with
  | true => simp
  | false =>
    by_cases hflavor : stored.type.flavor? = some .region
    · simp [hflavor]
    · by_cases harray : (stored.type.isArray && stored.type.leafBase.isCompound) = true <;>
        simp [hflavor, harray]

/-- **Values that can be encoded are stored**, if nothing is made to fail. -/
theorem write_of_values {items : List Value} {bytes : Bytes} {s : Store}
    (hfaults : s.file.faults = []) (hpreflight : stored.source.preflight (.values items) = .ok ())
    (hcount : items.length = stored.space.numElements)
    (hencode : stored.type.encodeElements options items = .ok bytes) :
    ∃ s', stored.source.write options (.values items) s = .ok () s' ∧
      s'.content = .packed bytes := by
  have hpack : (Data.values items).pack stored.type options stored.space.numElements =
      .ok (.packed bytes) := by
    simp only [Data.pack, ← hcount, Data.checkCount_self, hencode]
    rfl
  have hpayload (t : Store) :
      stored.source.payload options (.values items) t = .ok (.packed bytes) t :=
    congrFun (congrArg Action.ofExcept hpack) t
  have hlength : bytes.length = stored.space.numElements * stored.type.size :=
    hcount ▸ Datatype.length_of_encodeElements hencode
  obtain ⟨s', hwhole⟩ := write_of_payload hfaults hpreflight (hpayload s) hlength
  obtain ⟨payload, u, hconverted, hcontent⟩ := content_of_write hwhole
  rw [hpayload s] at hconverted
  cases hconverted
  exact ⟨s', hwhole, hcontent⟩

/-- **Region references are protected at the top only.** Whatever the values,
a write that fails leaves what was stored. If the type is a region reference
itself or an array of compounds, or nothing is written at all, every write of
values fails before anything is asked. In any other attribute, every region
reference in every element can be overwritten with any token of its size. -/
theorem write_regionReferences (hleaf : leaf ∈ stored.type.layout)
    (hregion : leaf.type.flavor? = some .region) (convertText : Bool) :
    let options : ElementOptions := { convertText := convertText, members := .all }
    (∀ items s e s', stored.source.write options (.values items) s = .error e s' →
      s'.content = s.content) ∧
    (stored.rejectsRegions = true → ∀ items s,
      ∃ e, stored.source.write options (.values items) s = .error e s) ∧
    (stored.rejectsRegions = false → stored.type.hasDistinctNames = true →
      ∀ s, s.file.faults = [] → ∀ i < stored.space.numElements,
        ∀ token : Token, token.size = leaf.type.size →
          ∃ items s' bytes, stored.source.write options (.values items) s = .ok () s' ∧
            s'.content = .packed bytes ∧
            leaf.bytes (bytes.drop (i * stored.type.size)) = token.bytes) := by
  intro options
  refine ⟨fun items s e s' h => keepsOnError_write h, fun hrejects items s => ?_,
    fun hpasses hnames s hfaults i hi token htoken => ?_⟩
  · cases hpreflight : stored.source.preflight (.values items) with
    | ok _ =>
      have hpasses := (preflight_values_iff hleaf hregion items).1 hpreflight
      exact absurd (hrejects.symm.trans hpasses) (by decide)
    | error e =>
      rw [AttributeSource.write, hpreflight]
      exact ⟨e, rfl⟩
  · have hvalue (path : String) := Datatype.encodeAt_token hregion options htoken path
    obtain ⟨items, bytes, hcount, hencode, hbytes⟩ :=
      Datatype.exists_elements_of_leaf hnames hleaf hvalue hi
    have hpreflight := (preflight_values_iff hleaf hregion items).2 hpasses
    obtain ⟨s', hwrite, hcontent⟩ := write_of_values hfaults hpreflight hcount hencode
    exact ⟨items, s', bytes, hwrite, hcontent, hbytes⟩

/-- A compound whose only member is a region reference: the twelve bytes of a
token get into it. -/
theorem write_nestedRegionReference :
    let stored : StoredAttribute :=
      { name := "a", type := .ofMembers [("r", .referenceOf .region)], space := .line 1 }
    let leaf : Datatype.Slot := ⟨0, .referenceOf .region⟩
    let token : Token := ⟨List.replicate 12 7⟩
    let s : Store := ⟨.ofPath "f.h5", .blank stored.type stored.space⟩
    leaf ∈ stored.type.layout ∧ leaf.type.flavor? = some .region ∧
      ∃ items s' bytes, stored.source.write {} (.values items) s = .ok () s' ∧
        s'.content = .packed bytes ∧ leaf.bytes bytes = token.bytes := by
  intro stored leaf token s
  have hleaf : leaf ∈ stored.type.layout := List.mem_singleton.2 rfl
  have hwrite := (write_regionReferences hleaf rfl true).2.2 rfl (by decide) s rfl 0 (by decide)
    token rfl
  exact ⟨hleaf, rfl, hwrite⟩

end StoredAttribute

end Memory

end TypedAttr
