import TypedAttr.Proofs.Memory.Description
/-!
# How records degrade

Of a question that fails, only the fields that its answer goes into are lost:
they are unset, and the others are as they were. A field `Fades` if it is
either what it was or, for some cause, unset. Every field fades, the cause
being that a question feeding it fails that did not fail before
(`fades_describe`).
-/

namespace TypedAttr

/-! ## Fields -/

namespace Record

/-- The fields of a record beside its token. -/
inductive Field where
  | filePath
  | fileName
  | objectName
  | attributeName
  | kind
  | objectType
  | regionType
  | regionText
  | regionRank
  deriving DecidableEq

namespace Field

/-- What a field holds. -/
def Value : Field → Type
  | .filePath | .fileName | .objectName | .attributeName | .regionText => String
  | .kind => ReferenceKind
  | .objectType => ObjectType
  | .regionType => RegionType
  | .regionRank => Option Nat

/-- What a record has in a field. -/
def get : (field : Field) → Record → field.Value
  | .filePath, record => record.filePath
  | .fileName, record => record.fileName
  | .objectName, record => record.objectName
  | .attributeName, record => record.attributeName
  | .kind, record => record.kind
  | .objectType, record => record.objectType
  | .regionType, record => record.regionType
  | .regionText, record => record.regionText
  | .regionRank, record => record.regionRank

end Field

end Record

/-! ## Values that fade -/

section Fades

variable {α β : Type} {cause : Prop}

/-- A value is what it was, or there is a cause and it is unset. -/
def Fades (cause : Prop) (unset faded told : α) : Prop := faded = told ∨ cause ∧ faded = unset

namespace Fades

theorem refl (unset told : α) : Fades cause unset told told := .inl rfl

theorem imp {other : Prop} {unset faded told : α} (h : Fades cause unset faded told)
    (hcause : cause → other) : Fades other unset faded told :=
  Or.imp_right (And.imp_left hcause) h

/-- What is made of an answer fades with it. -/
theorem bind {faded told : Option α} {f g : α → Option β} (h : Fades cause none faded told)
    (hnext : ∀ a, Fades cause none (f a) (g a)) :
    Fades cause none (faded.bind f) (told.bind g) := by
  rcases h with rfl | ⟨hcause, rfl⟩
  · cases faded with
    | none => exact refl none none
    | some a => exact hnext a
  · exact .inr ⟨hcause, rfl⟩

theorem map {faded told : Option α} (h : Fades cause none faded told) (f : α → β) :
    Fades cause none (faded.map f) (told.map f) := by
  rcases h with rfl | ⟨hcause, rfl⟩
  · exact refl none _
  · exact .inr ⟨hcause, rfl⟩

theorem getD {faded told : Option α} (h : Fades cause none faded told) (unset : α) :
    Fades cause unset (faded.getD unset) (told.getD unset) := by
  rcases h with rfl | ⟨hcause, rfl⟩
  · exact refl unset _
  · exact .inr ⟨hcause, rfl⟩

end Fades

end Fades

namespace Memory

namespace File

open Record (Field)

/-! ## Questions and fields -/

/-- The questions whose answers go into a field, or without which it is not
asked for. -/
def feeders : Field → List String
  | .filePath | .fileName => ["file_name"]
  | .objectName => ["object_name"]
  | .kind => ["reference_kind"]
  | .attributeName => ["reference_kind", "attribute_name"]
  | .objectType => ["reference_kind", "object_type"]
  | .regionType => ["reference_kind", "open_object", "open_region", "selection_type"]
  | .regionText =>
    ["reference_kind", "open_object", "open_region", "selection_type", "space_rank",
      "selection_points", "selection_blocks"]
  | .regionRank =>
    ["reference_kind", "open_object", "open_region", "selection_type", "space_rank",
      "open_attribute", "attribute_space"]

/-- The file with these questions failing, and no others. -/
def failing (names : List String) (file : File) : File := { file with faults := names }

/-- A question fails that did not fail before. -/
def Lost (faults more : List String) (name : String) : Prop := name ∈ more ∧ name ∉ faults

/-- One is lost that feeds a field. -/
def Starved (faults more : List String) (field : Field) : Prop :=
  ∃ name, Lost faults more name ∧ name ∈ feeders field

variable {faults more : List String}

/-- What is told of a region fades field by field. -/
structure FadesPart (faults more : List String) (faded told : RegionPart) : Prop where
  type : Fades (Starved faults more .regionType) .unset faded.type told.type
  text : Fades (Starved faults more .regionText) Record.unset faded.text told.text
  rank : Fades (Starved faults more .regionRank) none faded.rank told.rank

theorem FadesPart.refl (part : RegionPart) : FadesPart faults more part part :=
  ⟨.refl _ _, .refl _ _, .refl _ _⟩

/-- All of it is lost with a question that feeds all of it. -/
theorem FadesPart.of_lost {name : String} (h : Lost faults more name)
    (hfed : ∀ field ∈ [Field.regionType, .regionText, .regionRank], name ∈ feeders field)
    (told : RegionPart) : FadesPart faults more {} told :=
  ⟨.inr ⟨⟨name, h, hfed _ (by simp)⟩, rfl⟩, .inr ⟨⟨name, h, hfed _ (by simp)⟩, rfl⟩,
    .inr ⟨⟨name, h, hfed _ (by simp)⟩, rfl⟩⟩

variable (file : File) (hsubset : faults ⊆ more)
include hsubset

/-- An answer is lost only with its question. -/
theorem fades_said {α : Type} (name : String) (found : Except Error α) :
    Fades (Lost faults more name) none
      ((file.failing more).said name found) ((file.failing faults).said name found) := by
  unfold said failing
  by_cases hmore : name ∈ more
  · rw [if_pos hmore]
    by_cases hfaults : name ∈ faults
    · rw [if_pos hfaults]
      exact .refl none none
    · exact .inr ⟨⟨hmore, hfaults⟩, rfl⟩
  · have hfaults : name ∉ faults := fun h => hmore (hsubset h)
    rw [if_neg hmore, if_neg hfaults]
    exact .refl none _

/-- So a field that the question feeds has a cause to fade. -/
theorem fades_said_of_fed {α : Type} {field : Field} {name : String} (found : Except Error α)
    (hfed : name ∈ feeders field) :
    Fades (Starved faults more field) none
      ((file.failing more).said name found) ((file.failing faults).said name found) :=
  (fades_said file hsubset name found).imp fun hlost => ⟨name, hlost, hfed⟩

/-! ## Records that fade -/

variable (token : Token) (flavor : ReferenceFlavor)

theorem fades_toldKind :
    Fades (Lost faults more "reference_kind") .unknown
      ((file.failing more).toldKind token flavor)
      ((file.failing faults).toldKind token flavor) := by
  cases flavor with
  | standard => exact (fades_said file hsubset "reference_kind" (file.kindOf token)).getD _
  | region | object => exact .refl _ _

theorem fades_toldAttribute :
    Fades (Starved faults more .attributeName) Record.unset
      ((file.failing more).toldAttribute token flavor)
      ((file.failing faults).toldAttribute token flavor) := by
  unfold toldAttribute
  cases flavor with
  | region | object => exact .refl _ _
  | standard =>
    rcases fades_toldKind file hsubset token .standard with hkind | ⟨hlost, hkind⟩
    · rw [hkind]
      cases (file.failing faults).toldKind token .standard with
      | unknown | objectAddress | regionAddress | object | region | other => exact .refl _ _
      | _ =>
        have hname := fades_said_of_fed file hsubset (file.attributeNameOf token)
          (show "attribute_name" ∈ feeders .attributeName by simp [feeders])
        exact hname.getD _
    · rw [hkind]
      exact .inr ⟨⟨_, hlost, by simp [feeders]⟩, rfl⟩

theorem fades_toldType :
    Fades (Starved faults more .objectType) (.unknown (-1))
      ((file.failing more).toldType token flavor)
      ((file.failing faults).toldType token flavor) := by
  have htype : Fades (Starved faults more .objectType) (.unknown (-1))
      (((file.failing more).said "object_type" (file.typeOf token)).getD (.unknown (-1)))
      (((file.failing faults).said "object_type" (file.typeOf token)).getD (.unknown (-1))) :=
    (fades_said_of_fed file hsubset (file.typeOf token) (by simp [feeders])).getD _
  unfold toldType
  cases flavor with
  | region => exact .refl _ _
  | object => exact htype
  | standard =>
    rcases fades_toldKind file hsubset token .standard with hkind | ⟨hlost, hkind⟩
    · rw [hkind]
      cases (file.failing faults).toldKind token .standard with
      | unknown => exact .refl _ _
      | _ => exact htype
    · rw [hkind]
      exact .inr ⟨⟨_, hlost, by simp [feeders]⟩, rfl⟩

omit hsubset in
theorem coordinatesText_none (text : Nat → List Nat → String) (coordinates : Option (List Nat)) :
    coordinatesText text coordinates none = Record.unset := by
  cases coordinates <;> rfl

/-- A text of coordinates is lost with the coordinates and with the rank. -/
theorem fades_coordinatesText {name : String} (hfed : name ∈ feeders .regionText)
    (text : Nat → List Nat → String) (found : Except Error (List Nat)) (rank : Nat) :
    Fades (Starved faults more .regionText) Record.unset
      (coordinatesText text ((file.failing more).said name found)
        ((file.failing more).said "space_rank" (.ok rank)))
      (coordinatesText text ((file.failing faults).said name found)
        ((file.failing faults).said "space_rank" (.ok rank))) := by
  have hrank := fades_said_of_fed file hsubset (.ok rank)
    (show "space_rank" ∈ feeders .regionText by simp [feeders])
  rcases fades_said_of_fed file hsubset found hfed with htold | ⟨hlost, htold⟩
  · rcases hrank with hrank | ⟨hlost, hrank⟩
    · rw [htold, hrank]
      exact .refl _ _
    · rw [hrank]
      exact .inr ⟨hlost, coordinatesText_none text _⟩
  · rw [htold]
    exact .inr ⟨hlost, rfl⟩

theorem fades_openPart (handle : OpenHandle) :
    FadesPart faults more ((file.failing more).openPart handle)
      ((file.failing faults).openPart handle) := by
  unfold openPart
  cases handle with
  | region selection rank =>
    have hrank : Fades (Starved faults more .regionRank) none
        ((file.failing more).said "space_rank" (.ok rank))
        ((file.failing faults).said "space_rank" (.ok rank)) :=
      fades_said_of_fed file hsubset (.ok rank) (by simp [feeders])
    dsimp only
    rcases fades_said file hsubset "selection_type" (.ok selection.type) with
      htype | ⟨hlost, htype⟩
    · rw [htype]
      cases (file.failing faults).said "selection_type" (.ok selection.type) with
      | none => exact .refl _
      | some type =>
        cases selection with
        | points items =>
          exact ⟨.refl _ _, fades_coordinatesText file hsubset (by simp [feeders]) _ _ _, hrank⟩
        | blocks items =>
          exact ⟨.refl _ _, fades_coordinatesText file hsubset (by simp [feeders]) _ _ _, hrank⟩
        | whole => exact ⟨.refl _ _, .refl _ _, hrank⟩
    · rw [htype]
      exact .of_lost hlost (by simp [feeders]) _
  | _ => exact .refl _

theorem fades_regionPart :
    FadesPart faults more ((file.failing more).regionPart token)
      ((file.failing faults).regionPart token) := by
  -- what a token names does not depend on which questions fail
  have hobject : Fades (Lost faults more "open_object") none
      ((file.failing more).said "open_object" ((file.failing more).objectHandle token))
      ((file.failing faults).said "open_object" ((file.failing faults).objectHandle token)) :=
    fades_said file hsubset "open_object" (file.objectHandle token)
  have hregion : Fades (Lost faults more "open_region") none
      ((file.failing more).said "open_region" ((file.failing more).regionHandle token))
      ((file.failing faults).said "open_region" ((file.failing faults).regionHandle token)) :=
    fades_said file hsubset "open_region" (file.regionHandle token)
  unfold regionPart
  rcases hobject with hobject | ⟨hlost, hobject⟩
  · rw [hobject]
    cases (file.failing faults).said "open_object" ((file.failing faults).objectHandle token) with
    | none => exact .refl _
    | some _ =>
      rcases hregion with hregion | ⟨hlost, hregion⟩
      · rw [hregion]
        cases (file.failing faults).said "open_region"
            ((file.failing faults).regionHandle token) with
        | none => exact .refl _
        | some handle => exact fades_openPart file hsubset handle
      · rw [hregion]
        exact .of_lost hlost (by simp [feeders]) _
  · rw [hobject]
    exact .of_lost hlost (by simp [feeders]) _

theorem fades_attributeRank :
    Fades (Starved faults more .regionRank) none
      ((file.failing more).attributeRank token) ((file.failing faults).attributeRank token) := by
  refine (fades_said_of_fed file hsubset (file.attributeHandle token) (by simp [feeders])).bind ?_
  intro handle
  cases handle with
  | nativeType | object | region | space => exact .refl _ _
  | _ =>
    refine (fades_said_of_fed file hsubset _ (by simp [feeders])).bind fun rank => ?_
    exact fades_said_of_fed file hsubset (.ok rank) (by simp [feeders])

theorem fades_toldRegion :
    FadesPart faults more ((file.failing more).toldRegion token flavor)
      ((file.failing faults).toldRegion token flavor) := by
  unfold toldRegion
  rcases fades_toldKind file hsubset token flavor with hkind | ⟨hlost, hkind⟩
  · rw [hkind]
    cases (file.failing faults).toldKind token flavor with
    | unknown | objectAddress | object | other => exact .refl _
    | regionAddress | region => exact fades_regionPart file hsubset token
    | _ => exact ⟨.refl _ _, .refl _ _, fades_attributeRank file hsubset token⟩
  · rw [hkind]
    exact .of_lost hlost (by simp [feeders]) _

/-- **Every field of a record fades.** It is what it was, or it is unset, and
then a question that feeds it fails that did not fail before. -/
theorem fades_describe (field : Field) :
    Fades (Starved faults more field) (field.get (.null token))
      (field.get ((file.failing more).describe flavor token))
      (field.get ((file.failing faults).describe flavor token)) := by
  unfold describe
  split
  · exact .refl _ _
  · have hpath := fades_said_of_fed file hsubset (file.pathOf token)
      (show "file_name" ∈ feeders .filePath by simp [feeders])
    have hregion := fades_toldRegion file hsubset token flavor
    cases field with
    | filePath => exact hpath.getD _
    | fileName =>
      exact ((fades_said_of_fed file hsubset (file.pathOf token)
        (show "file_name" ∈ feeders .fileName by simp [feeders])).map lastSegment).getD _
    | objectName =>
      exact (fades_said_of_fed file hsubset (file.nameOf token)
        (show "object_name" ∈ feeders .objectName by simp [feeders])).getD _
    | attributeName => exact fades_toldAttribute file hsubset token flavor
    | kind =>
      exact (fades_toldKind file hsubset token flavor).imp fun hlost =>
        ⟨_, hlost, by simp [feeders]⟩
    | objectType => exact fades_toldType file hsubset token flavor
    | regionType => exact hregion.type
    | regionText => exact hregion.text
    | regionRank => exact hregion.rank

omit hsubset

/-- **Failures degrade a record field by field.** There is always a record of
the token, with what the file tells. If more questions fail than before, each
of its fields is what it was or what it is when nothing is known; and if one
more question fails, only the fields that it feeds can be other than they
were. -/
theorem firstRecord_degrades (capacity : Nat) :
    let found (faults : List String) : Record :=
      (file.failing faults).firstRecord token capacity flavor
    (∀ faults, (found faults).token = token ∧
        found faults = (file.failing faults).describe flavor token) ∧
      (∀ faults more, faults ⊆ more → ∀ field : Field,
        field.get (found more) = field.get (found faults) ∨
          field.get (found more) = field.get (.null token)) ∧
      ∀ faults name, ∀ field : Field, name ∉ feeders field →
        field.get (found (name :: faults)) = field.get (found faults) := by
  intro found
  have hfound (faults : List String) : found faults = (file.failing faults).describe flavor token :=
    firstRecord_eq _ token capacity flavor
  refine ⟨fun faults => ⟨?_, hfound faults⟩, fun faults more hsubset field => ?_,
    fun faults name field hfed => ?_⟩
  · rw [hfound, token_describe]
  · rw [hfound, hfound]
    exact (fades_describe file hsubset token flavor field).imp_right And.right
  · rw [hfound, hfound]
    rcases fades_describe file (List.subset_cons_self name faults) token flavor field with
      hsame | ⟨⟨other, ⟨hmem, hnew⟩, hother⟩, -⟩
    · exact hsame
    · -- the one that is lost is the one that was added
      rcases List.mem_cons.1 hmem with rfl | hmem
      · exact absurd hother hfed
      · exact absurd hmem hnew

/-- Of a point in a dataset, the rank and the text are lost with the rank, and
the file's name stays lost; what kind of region it is is still known. -/
theorem firstRecord_degrades_point :
    let file := ((ofPath "f.h5").addObject "/d" .dataset [4, 4]).2
    let minted := file.mintRegion ⟨0⟩ (.points [[1, 2]])
    let found (faults : List String) : Record :=
      (minted.2.failing faults).firstRecord minted.1 1 .standard
    ["file_name"] ⊆ ["space_rank", "file_name"] ∧
      (found ["file_name"]).regionText = "\x7b (1,2) \x7d" ∧
      (found ["space_rank", "file_name"]).regionText = Record.unset ∧
      (found ["space_rank", "file_name"]).fileName = Record.unset ∧
      (found ["space_rank", "file_name"]).regionType = .points := by
  intro file minted found
  obtain ⟨-, hfade, hfed⟩ := firstRecord_degrades minted.2 minted.1 .standard 1
  have hsubset : ["file_name"] ⊆ ["space_rank", "file_name"] := List.subset_cons_self _ _
  have hname : (found ["file_name"]).fileName = Record.unset := by decide +kernel
  have htype : (found ["file_name"]).regionType = .points := by decide +kernel
  refine ⟨hsubset, by decide +kernel, by decide +kernel, ?_, ?_⟩
  · exact (hfade _ _ hsubset .fileName).elim (fun hsame => hsame.trans hname) id
  · exact (hfed ["file_name"] "space_rank" .regionType (by simp [feeders])).trans htype

end File

end Memory

end TypedAttr
