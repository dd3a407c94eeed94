import TypedAttr.Proofs.Memory.Degradation
/-!
# Renderings of records

The rendering of a record is its object part and its region part, a space
between them. It joins the parts that there are (`Record.joined`), except that
the space is there before a region part even if nothing stands before it
(`Record.referenceRegion_eq_joined_iff`). Which parts there are is read off the
names and the type of the region; a file tells the type of a region even if it
tells no names, so any token can come to this (`referenceRegion_firstRecord`).
-/

namespace TypedAttr

namespace Record

variable (record : Record)

/-- The object part and the region part with a space between them, one of them
by itself if the other is empty, and `unset` if both are. -/
def joined : String :=
  if record.objectPart = "" then
    if record.regionPart = "" then unset else record.regionPart
  else if record.regionPart = "" then record.objectPart
  else record.objectPart ++ " " ++ record.regionPart

/-- A text that is not known, or that is empty, adds nothing. -/
def IsBlank (text : String) : Prop := text = unset ∨ text = ""

instance (text : String) : Decidable (IsBlank text) := inferInstanceAs (Decidable (_ ∨ _))

theorem setOrEmpty_eq_empty_iff {text : String} : setOrEmpty text = "" ↔ IsBlank text := by
  by_cases h : text = unset <;> simp [setOrEmpty, isSet, IsBlank, h]

/-- With a separator that is no empty text, joining adds nothing to an empty
text just if the part is blank, and a text that is not empty stays so. -/
theorem joinSet_eq_empty_iff {text separator part : String} (hseparator : separator ≠ "") :
    joinSet text separator part = "" ↔ text = "" ∧ IsBlank part := by
  by_cases hset : part = unset
  · simp [joinSet, isSet, IsBlank, hset]
  · by_cases htext : text = "" <;> simp [joinSet, join, isSet, IsBlank, hset, htext, hseparator]

/-- There is no object part if no name is known, or those that are known are
empty. -/
theorem objectPart_eq_empty_iff :
    record.objectPart = "" ↔
      IsBlank record.fileName ∧ IsBlank record.objectName ∧ IsBlank record.attributeName := by
  rw [objectPart, joinSet_eq_empty_iff (by decide), String.append_eq_empty_iff,
    setOrEmpty_eq_empty_iff, setOrEmpty_eq_empty_iff, and_assoc]

/-- There is no region part if neither type nor text are known. -/
theorem regionPart_eq_empty_iff :
    record.regionPart = "" ↔ record.regionType = .unset ∧ IsBlank record.regionText := by
  rw [regionPart, joinSet_eq_empty_iff (by decide)]
  cases record.regionType <;> simp [RegionType.render]

/-- **A space without anything before it** is the only difference. -/
theorem referenceRegion_eq :
    record.referenceRegion =
      if record.objectPart = "" ∧ record.regionPart ≠ "" then " " ++ record.joined
      else record.joined := by
  by_cases hobject : record.objectPart = "" <;> by_cases hregion : record.regionPart = "" <;>
    simp [referenceRegion, joined, hobject, hregion]

/-- **A rendering joins the parts that there are** just if the region part does
not stand alone. -/
theorem referenceRegion_eq_joined_iff :
    record.referenceRegion = record.joined ↔
      (record.objectPart = "" → record.regionPart = "") := by
  rw [referenceRegion_eq]
  by_cases h : record.objectPart = "" ∧ record.regionPart ≠ ""
  · have hlonger : " " ++ record.joined ≠ record.joined := by
      intro heq
      have hlength := congrArg String.length heq
      rw [String.length_append] at hlength
      simp at hlength
    rw [if_pos h]
    exact iff_of_false hlonger fun himp => h.2 (himp h.1)
  · rw [if_neg h]
    exact iff_of_true rfl fun hobject => Decidable.not_not.1 fun hregion => h ⟨hobject, hregion⟩

end Record

namespace Memory

namespace File

variable {file : File} {token : Token} {flavor : ReferenceFlavor}

/-! ## Regions that are told -/

/-- An open region tells a text only together with a type. -/
theorem text_openPart {handle : OpenHandle} (h : (file.openPart handle).type = .unset) :
    (file.openPart handle).text = Record.unset := by
  cases handle with
  | region selection rank =>
    rw [openPart] at h ⊢
    cases hsaid : file.said "selection_type" (.ok selection.type) with
    | none => rfl
    | some type =>
      rw [hsaid] at h
      cases selection <;> cases h
  | _ => rfl

/-- So does a token. -/
theorem text_toldRegion (h : (file.toldRegion token flavor).type = .unset) :
    (file.toldRegion token flavor).text = Record.unset := by
  have hregion (h : (file.regionPart token).type = .unset) :
      (file.regionPart token).text = Record.unset := by
    rw [regionPart] at h ⊢
    cases hobject : file.said "open_object" (file.objectHandle token) with
    | none => rfl
    | some object =>
      rw [hobject] at h
      cases hopened : file.said "open_region" (file.regionHandle token) with
      | none => rfl
      | some handle =>
        rw [hopened] at h
        exact text_openPart h
  unfold toldRegion at h ⊢
  cases hkind : file.toldKind token flavor with
  | regionAddress | region =>
    rw [hkind] at h
    exact hregion h
  | _ => rfl

/-- **A record of a file has a region part** just if it has a region type. -/
theorem regionPart_describe_eq_empty_iff :
    (file.describe flavor token).regionPart = "" ↔
      (file.describe flavor token).regionType = .unset := by
  rw [Record.regionPart_eq_empty_iff, describe]
  split
  · exact iff_of_true ⟨rfl, .inl rfl⟩ rfl
  · exact ⟨And.left, fun h => ⟨h, .inl (text_toldRegion h)⟩⟩

/-- Without the two names, the address of an object leaves nothing but what it
is. -/
theorem objectPart_describe_object (hfile : "file_name" ∈ file.faults)
    (hobject : "object_name" ∈ file.faults) : (file.describe .object token).objectPart = "" := by
  rw [Record.objectPart_eq_empty_iff, describe]
  split
  · exact ⟨.inl rfl, .inl rfl, .inl rfl⟩
  · refine ⟨.inl ?_, .inl ?_, .inl rfl⟩
    · change ((file.said _ _).map lastSegment).getD _ = _
      rw [said_of_fault hfile]
      rfl
    · change (file.said _ _).getD _ = _
      rw [said_of_fault hobject]
      rfl

/-! ## Renderings of what is told -/

/-- **Renderings of resolved records.** Of any token of any file, whatever
fails, the rendering joins the object part and the region part where there are
both, and is one of them by itself or `unset` otherwise, just if a region is
not all that is told. If it is, the rendering is its part after a space. That
is so of every address of an object when the names cannot be had. -/
theorem referenceRegion_firstRecord (file : File) (token : Token) (flavor : ReferenceFlavor)
    (capacity : Nat) (faults : List String) :
    let found := (file.failing faults).firstRecord token capacity flavor
    let nameless := Record.IsBlank found.fileName ∧ Record.IsBlank found.objectName ∧
      Record.IsBlank found.attributeName
    (found.referenceRegion = found.joined ↔ (nameless → found.regionType = .unset)) ∧
      (nameless → found.regionType ≠ .unset →
        found.joined = found.regionPart ∧ found.referenceRegion = " " ++ found.regionPart) ∧
      (flavor = .object → token.isNull = false → "file_name" ∈ faults →
        "object_name" ∈ faults → found.referenceRegion = " H5O_TYPE_OBJ_REF") := by
  intro found nameless
  have hfound : found = (file.failing faults).describe flavor token :=
    firstRecord_eq _ token capacity flavor
  have hobject : found.objectPart = "" ↔ nameless := found.objectPart_eq_empty_iff
  have hregion : found.regionPart = "" ↔ found.regionType = .unset := by
    rw [hfound]
    exact regionPart_describe_eq_empty_iff
  have halone (hnone : nameless) (hsome : found.regionType ≠ .unset) :
      found.joined = found.regionPart ∧ found.referenceRegion = " " ++ found.regionPart := by
    have hempty : found.objectPart = "" := hobject.2 hnone
    have hpart : found.regionPart ≠ "" := fun h => hsome (hregion.1 h)
    have hjoined : found.joined = found.regionPart := by
      rw [Record.joined, if_pos hempty, if_neg hpart]
    refine ⟨hjoined, ?_⟩
    rw [Record.referenceRegion_eq, if_pos ⟨hempty, hpart⟩, hjoined]
  refine ⟨?_, halone, ?_⟩
  · rw [Record.referenceRegion_eq_joined_iff, hobject, hregion]
  · rintro rfl hnull hfile hname
    have hempty : found.objectPart = "" := by
      rw [hfound]
      exact objectPart_describe_object hfile hname
    have htype : found.regionType = .object := by
      rw [hfound, describe, hnull]
      rfl
    have htext : found.regionText = Record.unset := by
      rw [hfound, describe, hnull]
      rfl
    rw [(halone (hobject.1 hempty) (by rw [htype]; decide)).2, Record.regionPart, htype, htext]
    rfl

/-- A point in a dataset before and after the names fail, and the address of the
dataset. -/
theorem referenceRegion_firstRecord_nameless :
    let file := ((ofPath "f.h5").addObject "/d" .dataset [4, 4]).2
    let point := file.mintRegion ⟨0⟩ (.points [[1, 2]])
    let address := point.2.mintObjectAddress ⟨0⟩
    let found (faults : List String) (token : Token) (flavor : ReferenceFlavor) : Record :=
      (address.2.failing faults).firstRecord token 1 flavor
    let names := ["file_name", "object_name"]
    (found [] point.1 .standard).referenceRegion = "f.h5/d REGION_TYPE POINT \x7b (1,2) \x7d" ∧
      (found names point.1 .standard).joined = "REGION_TYPE POINT \x7b (1,2) \x7d" ∧
      (found names point.1 .standard).referenceRegion =
        " REGION_TYPE POINT \x7b (1,2) \x7d" ∧
      (found names address.1 .object).referenceRegion = " H5O_TYPE_OBJ_REF" := by
  intro file point address found names
  obtain ⟨hjoins, -, -⟩ := referenceRegion_firstRecord address.2 point.1 .standard 1 []
  obtain ⟨-, halone, -⟩ := referenceRegion_firstRecord address.2 point.1 .standard 1 names
  obtain ⟨-, -, haddress⟩ := referenceRegion_firstRecord address.2 address.1 .object 1 names
  have htold := hjoins.2 fun hnone => absurd hnone (by decide +kernel)
  obtain ⟨hjoined, hspace⟩ := halone (by decide +kernel) (by decide +kernel)
  exact ⟨htold.trans (by decide +kernel), hjoined.trans (by decide +kernel),
    hspace.trans (by decide +kernel),
    haddress rfl (by decide +kernel) (by decide) (by decide)⟩

end File

end Memory

end TypedAttr
