import TypedAttr.Proofs.Memory.Questions
import TypedAttr.Proofs.Reference.Leaves
import TypedAttr.Proofs.Reference.Queries
/-!
# What a file tells of a token

The record of a token depends on what a file has stored and on which
questions fail, and not on its accounts: the handles that are out, the
questions that were asked, the tokens that were handed out. `describe` reads
the record off the file without asking anything, field by field, and
`yields_resolve` says that it is the record that the questions lead to.
-/

namespace TypedAttr

namespace Memory

namespace File

/-! ## What a file knows -/

/-- A file without its accounts. -/
def known (file : File) : File := { file with handles := [], lent := 0, calls := 0, minted := 0 }

/-- The path of the file, if it has the token. -/
def pathOf (token : Token) (file : File) : Except Error String := do
  let _ ← file.reference token
  return file.path

/-- The path of a token's object. -/
def nameOf (token : Token) (file : File) : Except Error String :=
  return (← file.targetObject token).path

/-- The type of a token's object. -/
def typeOf (token : Token) (file : File) : Except Error ObjectType :=
  return (← file.targetObject token).type

/-- The kind of a token. -/
def kindOf (token : Token) (file : File) : Except Error ReferenceKind :=
  return (← file.reference token).kind

/-- The name of a token's attribute. -/
def attributeNameOf (token : Token) (file : File) : Except Error String := do
  match (← file.reference token).target with
  | .attribute _ name _ => return name
  | _ => throw (.resolution "not an attribute reference")

/-- What a handle for a token's object is for. -/
def objectHandle (token : Token) (file : File) : Except Error OpenHandle :=
  return .object (← file.reference token).target.objectId

/-- What a handle for a token's region is for. -/
def regionHandle (token : Token) (file : File) : Except Error OpenHandle := do
  match (← file.reference token).target with
  | .region id selection => return .region selection (← file.object id).extents.length
  | _ => throw (.resolution "not a region reference")

/-- What a handle for a token's attribute is for. -/
def attributeHandle (token : Token) (file : File) : Except Error OpenHandle := do
  match (← file.reference token).target with
  | .attribute _ _ rank => return .attribute rank
  | _ => throw (.resolution "not an attribute reference")

/-- What a question is answered by, if it is not made to fail. -/
def said {α : Type} (file : File) (name : String) (found : Except Error α) : Option α :=
  if name ∈ file.faults then none else found.toOption

section Said

variable {α : Type} {file : File} {name : String}

theorem said_of_fault (h : name ∈ file.faults) (found : Except Error α) :
    file.said name found = none :=
  if_pos h

theorem said_of_answered (h : name ∉ file.faults) (found : Except Error α) :
    file.said name found = found.toOption :=
  if_neg h

/-- Where nothing is made to fail, all that is found is told. -/
theorem said_of_healthy (h : file.faults = []) (name : String) (found : Except Error α) :
    file.said name found = found.toOption :=
  said_of_answered (by rw [h]; exact List.not_mem_nil) found

/-- And what is not found is not told. -/
theorem said_error (file : File) (name : String) (e : Error) :
    file.said name (.error e : Except Error α) = none := by
  rw [said]
  split <;> rfl

/-- What is told is what is found. -/
theorem found_of_said {found : Except Error α} {a : α} (h : file.said name found = some a) :
    found = .ok a := by
  rw [said] at h
  split at h
  · cases h
  · cases found with
    | ok b => exact congrArg Except.ok (Option.some.inj h)
    | error e => cases h

end Said

/-! ## The fields of a record -/

/-- What a record says of a region. -/
structure RegionPart where
  type : RegionType := .unset
  text : String := Record.unset
  rank : Option Nat := none

/-- The text of coordinates, if they are told and so is their rank. -/
def coordinatesText (text : Nat → List Nat → String) (coordinates : Option (List Nat))
    (rank : Option Nat) : String :=
  match coordinates, rank with
  | some coordinates, some rank => text rank coordinates
  | _, _ => Record.unset

/-- What an open region tells. -/
def openPart (file : File) : OpenHandle → RegionPart
  | .region selection rank =>
    match file.said "selection_type" (.ok selection.type) with
    | none => {}
    | some _ =>
      let rank := file.said "space_rank" (.ok rank)
      match selection with
      | .points items =>
        let told := file.said "selection_points" (.ok items.flatten)
        ⟨.points, coordinatesText Region.pointsText told rank, rank⟩
      | .blocks items =>
        let told := file.said "selection_blocks"
          (.ok (items.flatMap fun (low, high) => low ++ high))
        ⟨.blocks, coordinatesText Region.blocksText told rank, rank⟩
      | .whole => ⟨.otherRegion, Record.unset, rank⟩
  | _ => {}

/-- What a token's region tells. Its object has to be there, too. -/
def regionPart (file : File) (token : Token) : RegionPart :=
  match file.said "open_object" (file.objectHandle token) with
  | none => {}
  | some _ => ((file.said "open_region" (file.regionHandle token)).map file.openPart).getD {}

/-- The rank of an open attribute. -/
def openRank (file : File) : OpenHandle → Option Nat
  | .attribute rank => do
    let rank ← file.said "attribute_space" (.ok rank)
    file.said "space_rank" (.ok rank)
  | _ => none

/-- The rank of a token's attribute. -/
def attributeRank (file : File) (token : Token) : Option Nat :=
  (file.said "open_attribute" (file.attributeHandle token)).bind file.openRank

/-- The kind under which a token is resolved. Only standard tokens are asked
for it. -/
def toldKind (file : File) (token : Token) : ReferenceFlavor → ReferenceKind
  | .standard => (file.said "reference_kind" (file.kindOf token)).getD .unknown
  | .region => .regionAddress
  | .object => .objectAddress

/-- The name of the attribute, if it is one. -/
def toldAttribute (file : File) (token : Token) (flavor : ReferenceFlavor) : String :=
  match flavor, file.toldKind token flavor with
  | .standard, .attribute =>
    (file.said "attribute_name" (file.attributeNameOf token)).getD Record.unset
  | _, _ => Record.unset

/-- The type of the object. What is known to be a region is one of a dataset,
and of a token of unknown kind nothing is asked. -/
def toldType (file : File) (token : Token) (flavor : ReferenceFlavor) : ObjectType :=
  match flavor, file.toldKind token flavor with
  | .region, _ => .dataset
  | .standard, .unknown => .unknown (-1)
  | _, _ => (file.said "object_type" (file.typeOf token)).getD (.unknown (-1))

/-- What is told of the region, by the kind of the token. -/
def toldRegion (file : File) (token : Token) (flavor : ReferenceFlavor) : RegionPart :=
  match file.toldKind token flavor with
  | .unknown => {}
  | .objectAddress | .object => { type := .object }
  | .regionAddress | .region => file.regionPart token
  | .attribute => { type := .attribute, rank := file.attributeRank token }
  | .other => { type := .unknown }

/-- A record with what is told of a region. -/
def RegionPart.put (part : RegionPart) (record : Record) : Record :=
  { record with regionType := part.type, regionText := part.text, regionRank := part.rank }

/-- What is told of a token of any kind. -/
def located (file : File) (token : Token) : Record :=
  let path := file.said "file_name" (file.pathOf token)
  { token := token
    filePath := path.getD Record.unset
    fileName := (path.map lastSegment).getD Record.unset
    objectName := (file.said "object_name" (file.nameOf token)).getD Record.unset }

/-- **The record of a token**, read off a file. -/
def describe (file : File) (flavor : ReferenceFlavor) (token : Token) : Record :=
  if token.isNull then .null token
  else
    (file.toldRegion token flavor).put
      { file.located token with
        attributeName := file.toldAttribute token flavor
        kind := file.toldKind token flavor
        objectType := file.toldType token flavor }

theorem token_describe (file : File) (flavor : ReferenceFlavor) (token : Token) :
    (file.describe flavor token).token = token := by
  rw [describe]
  split <;> rfl

section Describe

variable {file : File} {flavor : ReferenceFlavor} {token : Token}

/-- What is told depends on what is known only. -/
theorem describe_known (file : File) :
    file.known.describe flavor token = file.describe flavor token :=
  rfl

/-- **A token that is known** leads to its object, where nothing is made to
fail: the record has the paths of the file and of the object, and the
object's type. -/
theorem describe_of_reference {reference : StoredReference} {object : StoredObject}
    (hfaults : file.faults = []) (hnull : token.isNull = false)
    (hreference : file.reference token = .ok reference)
    (hobject : file.object reference.target.objectId = .ok object) :
    (file.describe flavor token).filePath = file.path ∧
      (file.describe flavor token).objectName = object.path ∧
      (flavor ≠ .region → reference.kind ≠ .unknown →
        (file.describe flavor token).objectType = object.type) := by
  have htarget : file.targetObject token = .ok object := by
    rw [targetObject, hreference]
    exact hobject
  have hpath : file.pathOf token = .ok file.path := by
    rw [pathOf, hreference]
    rfl
  have hname : file.nameOf token = .ok object.path := by
    rw [nameOf, htarget]
    rfl
  have htype : file.typeOf token = .ok object.type := by
    rw [typeOf, htarget]
    rfl
  have hkind : file.kindOf token = .ok reference.kind := by
    rw [kindOf, hreference]
    rfl
  rw [describe, hnull, if_neg (by decide)]
  refine ⟨?_, ?_, fun hflavor hknown => ?_⟩
  · change (file.said _ _).getD _ = _
    rw [said_of_healthy hfaults, hpath]
    rfl
  · change (file.said _ _).getD _ = _
    rw [said_of_healthy hfaults, hname]
    rfl
  · change file.toldType token flavor = _
    simp only [toldType, toldKind, said_of_healthy hfaults, hkind, htype]
    cases flavor with
    | object => rfl
    | region => exact absurd rfl hflavor
    | standard =>
      cases hreferenceKind : reference.kind with
      | unknown => exact absurd hreferenceKind hknown
      | _ => rfl

/-- A token that is not known has a record without names. -/
theorem describe_of_error {e : Error} (h : file.reference token = .error e) :
    (file.describe flavor token).filePath = Record.unset ∧
      (file.describe flavor token).objectName = Record.unset := by
  have hpath : file.pathOf token = .error e := by
    rw [pathOf, h]
    rfl
  have hname : file.nameOf token = .error e := by
    rw [nameOf, targetObject, h]
    rfl
  rw [describe]
  split
  · exact ⟨rfl, rfl⟩
  · constructor
    · change (file.said _ _).getD _ = _
      rw [hpath, said_error]
      rfl
    · change (file.said _ _).getD _ = _
      rw [hname, said_error]
      rfl

end Describe

/-! ## Questions -/

/-- A file that knows what another knows, and has some handles out. -/
structure Like (file : File) (out : List (HandleId × OpenHandle)) (s : File) : Prop where
  known : s.known = file.known
  opened : ∀ entry ∈ out, s.handle? entry.1 = some entry.2

theorem Like.refl (file : File) : Like file [] file := ⟨rfl, fun _ h => by cases h⟩

theorem Like.forget {file s : File} {out : List (HandleId × OpenHandle)} (h : Like file out s) :
    Like file [] s := ⟨h.known, fun _ h => by cases h⟩

variable {α : Type} {file : File} {out : List (HandleId × OpenHandle)}

/-- What does not look at the accounts of a file is the same of both. -/
theorem Like.agree {β : Type} {s : File} (h : Like file out s) (f : File → β)
    (hf : ∀ file : File, f file.known = f file) : f s = f file := by
  rw [← hf s, h.known, hf file]

theorem Like.faults {s : File} (h : Like file out s) : s.faults = file.faults :=
  h.agree File.faults fun _ => rfl

theorem Like.counted {s : File} (h : Like file out s) : Like file out s.counted :=
  ⟨h.known, h.opened⟩

/-- A question is answered by what is found in the file. -/
theorem yields_answer (name : String) {lookup : File → Except Error α} {found : Except Error α}
    (h : ∀ s, Like file out s → lookup s = found) :
    Yields (Like file out) (Like file out) (attempt (answer name lookup))
      (file.said name found) := by
  intro s hs
  rw [StateT.run, attempt, answer_eq, hs.faults, said, h _ hs.counted]
  by_cases hname : name ∈ file.faults
  · rw [if_pos hname, if_pos hname]
    exact ⟨rfl, hs.counted⟩
  · rw [if_neg hname, if_neg hname]
    cases found <;> exact ⟨rfl, hs.counted⟩

/-- An answer goes into the record. -/
theorem yields_ask (name : String) {lookup : File → Except Error α} {found : Except Error α}
    (h : ∀ s, Like file out s → lookup s = found) (put : α → Record → Record) (record : Record) :
    Yields (Like file out) (Like file out) (ReferenceLookups.ask (answer name lookup) put record)
      ((file.said name found).elim record (put · record)) := by
  refine (yields_answer name h).bind ?_
  cases file.said name found <;> exact .pure _

/-- What is done with a handle is done with one for what is found. -/
theorem yields_borrow {kind : HandleKind} {name : String}
    {lookup : File → Except Error OpenHandle} {found : Except Error OpenHandle}
    {body : HandleId → Record → StateM File Record} {record : Record}
    (result : OpenHandle → Record) (h : ∀ s, Like file out s → lookup s = found)
    (hbody : ∀ handle, found = .ok handle → ∀ id,
      Yields (Like file [(id, handle)]) (Like file []) (body id record) (result handle)) :
    Yields (Like file out) (Like file [])
      (lookups.borrow kind (answerHandle name lookup) body record)
      ((file.said name found).elim record result) := by
  intro s hs
  have htake := answerHandle_eq name lookup s
  rw [hs.faults, h _ hs.counted] at htake
  by_cases hname : name ∈ file.faults
  · rw [if_pos hname] at htake
    rw [ReferenceLookups.run_borrow_of_error (acquire_of_error htake), said, if_pos hname]
    exact ⟨rfl, hs.counted.forget⟩
  · rw [if_neg hname] at htake
    rw [said, if_neg hname]
    cases hfound : found with
    | error e =>
      rw [hfound] at htake
      rw [ReferenceLookups.run_borrow_of_error (acquire_of_error htake)]
      exact ⟨rfl, hs.counted.forget⟩
    | ok handle =>
      rw [hfound] at htake
      have hlent : Like file [(⟨s.lent⟩, handle)] (s.lending handle) := by
        refine ⟨hs.known, fun entry hentry => ?_⟩
        rw [List.mem_singleton.1 hentry]
        exact s.handle?_lending handle
      obtain ⟨hresult, hlike⟩ := hbody handle hfound ⟨s.lent⟩ _ hlent
      have hrelease (t : File) : (stateAfter (release kind ⟨s.lent⟩) t).known = t.known := by
        rw [stateAfter, release]
        cases t.checkHandle kind ⟨s.lent⟩ <;> rfl
      have hvalid : HandleId.isValid ⟨s.lent⟩ = true := by simp [HandleId.isValid]
      rw [ReferenceLookups.run_borrow_of_ok (acquire_of_ok htake hvalid), hresult]
      exact ⟨rfl, (hrelease _).trans hlike.known, fun _ h => by cases h⟩

/-! ## Steps of a resolution -/

variable (file) (token : Token)

theorem yields_location :
    Yields (Like file []) (Like file []) (lookups.location token (.null token))
      (file.located token) := by
  have hpath := yields_ask "file_name"
    (fun s (hs : Like file [] s) => hs.agree (pathOf token) fun _ => rfl)
    (fun path record => { record with filePath := path, fileName := lastSegment path })
    (.null token)
  have hname := yields_ask "object_name"
    (fun s (hs : Like file [] s) => hs.agree (nameOf token) fun _ => rfl)
    (fun name record => { record with objectName := name })
  have hlocated := hpath.bind (hname _)
  unfold located
  cases hsaid : file.said "file_name" (file.pathOf token) <;>
    cases hsaid' : file.said "object_name" (file.nameOf token) <;>
      rw [hsaid, hsaid'] at hlocated <;> exact hlocated

/-- A standard token is asked for its kind, and for the attribute's name if it
is one. -/
theorem yields_kindAndAttribute :
    Yields (Like file []) (Like file []) (lookups.kindAndAttribute token (file.located token))
      { file.located token with
        kind := file.toldKind token .standard
        attributeName := file.toldAttribute token .standard } := by
  have hkind := yields_ask "reference_kind"
    (fun s (hs : Like file [] s) => hs.agree (kindOf token) fun _ => rfl)
    (fun kind record => { record with kind := kind }) (file.located token)
  have hname := yields_ask "attribute_name"
    (fun s (hs : Like file [] s) => hs.agree (attributeNameOf token) fun _ => rfl)
    (fun name record => { record with attributeName := name })
  have hasked : (file.said "reference_kind" (file.kindOf token)).elim (file.located token)
      (fun kind => { file.located token with kind := kind }) =
        { file.located token with kind := file.toldKind token .standard } := by
    rw [toldKind]
    cases file.said "reference_kind" (file.kindOf token) <;> rfl
  rw [hasked] at hkind
  refine hkind.bind ?_
  unfold toldAttribute
  cases htold : file.toldKind token .standard with
  | unknown | objectAddress | regionAddress | object | region | other => exact .pure _
  | _ =>
    have hname := hname { file.located token with kind := .attribute }
    cases hsaid : file.said "attribute_name" (file.attributeNameOf token) <;>
      rw [hsaid] at hname <;> exact hname

theorem yields_typeOfObject (record : Record) (hunset : record.objectType = .unknown (-1)) :
    Yields (Like file []) (Like file []) (lookups.typeOfObject token record)
      { record with
        objectType := (file.said "object_type" (file.typeOf token)).getD (.unknown (-1)) } := by
  have htype := yields_ask "object_type"
    (fun s (hs : Like file [] s) => hs.agree (typeOf token) fun _ => rfl)
    (fun type record => { record with objectType := type }) record
  cases hsaid : file.said "object_type" (file.typeOf token) <;> rw [hsaid] at htype
  · rw [Option.getD_none, ← hunset]
    exact htype
  · exact htype

/-- Coordinates become a text together with the rank in the record. -/
theorem yields_coordinates {out : List (HandleId × OpenHandle)} (name : String)
    {lookup : File → Except Error (List Nat)} {found : Except Error (List Nat)}
    {record : Record} (h : ∀ s, Like file out s → lookup s = found)
    (hunset : record.regionText = Record.unset) (text : Nat → List Nat → String) :
    Yields (Like file out) (Like file out)
      (ReferenceLookups.coordinates (answer name lookup) text record)
      { record with
        regionText := coordinatesText text (file.said name found) record.regionRank } := by
  refine (yields_answer name h).bind ?_
  obtain ⟨_, _, _, _, _, _, _, _, regionText, rank⟩ := record
  obtain rfl : regionText = Record.unset := hunset
  cases file.said name found <;> cases rank <;> exact .pure _

variable {token}

/-- An open region is asked how its selection is given, for its rank, and for
its coordinates. -/
theorem yields_regionOfSpace (id : HandleId) (selection : RegionSelection) (rank : Nat)
    {record : Record} (hunset : RegionPart.put {} record = record) :
    let here := Like file [(id, .region selection rank)]
    Yields here here (lookups.regionOfSpace id record)
      ((file.openPart (.region selection rank)).put record) := by
  intro here
  have hopened (s : File) (hs : here s) : s.opened id = .ok (.region selection rank) := by
    rw [opened, hs.opened _ (List.mem_singleton.2 rfl)]
  have htype (s : File) (hs : here s) : selectionOfSpace s id = .ok selection.type := by
    rw [selectionOfSpace, hopened s hs]; rfl
  have hrank (s : File) (hs : here s) : rankOfSpace s id = .ok rank := by
    rw [rankOfSpace, hopened s hs]; rfl
  have htext : record.regionText = Record.unset := (congrArg Record.regionText hunset).symm
  unfold ReferenceLookups.regionOfSpace openPart
  refine (yields_answer _ htype).bind ?_
  cases hsaid : file.said "selection_type" (.ok selection.type) with
  | none =>
    dsimp only
    rw [hsaid]
    dsimp only
    rw [hunset]
    exact .pure _
  | some type =>
    obtain rfl : selection.type = type := Except.ok.inj (found_of_said hsaid)
    dsimp only
    rw [hsaid]
    refine (yields_answer _ hrank).bind ?_
    cases selection with
    | points items =>
      refine yields_coordinates file _ (fun s hs => ?_) ?_ _
      · rw [hopened s hs]
        rfl
      · exact htext
    | blocks items =>
      refine yields_coordinates file _ (fun s hs => ?_) ?_ _
      · rw [hopened s hs]
        rfl
      · exact htext
    | whole =>
      refine Eq.subst ?_ (Yields.pure _)
      rw [RegionPart.put, ← htext]

/-- A handle that is lent for a region is of one. -/
theorem regionHandle_ok {handle : OpenHandle} (h : file.regionHandle token = .ok handle) :
    ∃ selection rank, handle = .region selection rank := by
  obtain ⟨reference, -, htarget⟩ := exceptBind_ok h
  split at htarget
  · obtain ⟨object, -, hobject⟩ := exceptBind_ok htarget
    exact ⟨_, _, (Except.ok.inj hobject).symm⟩
  · cases htarget

/-- One that is lent for an attribute, too. -/
theorem attributeHandle_ok {handle : OpenHandle} (h : file.attributeHandle token = .ok handle) :
    ∃ rank, handle = .attribute rank := by
  obtain ⟨reference, -, htarget⟩ := exceptBind_ok h
  split at htarget
  · exact ⟨_, (Except.ok.inj htarget).symm⟩
  · cases htarget

theorem yields_region {record : Record} (hunset : RegionPart.put {} record = record) :
    Yields (Like file []) (Like file []) (lookups.region token record)
      ((file.regionPart token).put record) := by
  have hinner (out : List (HandleId × OpenHandle)) :
      Yields (Like file out) (Like file [])
        (lookups.borrow .region (lookups.openRegion token) lookups.regionOfSpace record)
        ((file.said "open_region" (file.regionHandle token)).elim record
          fun handle => (file.openPart handle).put record) := by
    refine yields_borrow _ (fun s hs => hs.agree (regionHandle token) fun _ => rfl) ?_
    intro handle hhandle id
    obtain ⟨selection, rank, rfl⟩ := regionHandle_ok file hhandle
    exact (yields_regionOfSpace file id selection rank hunset).weaken fun _ => Like.forget
  have houter : Yields (Like file []) (Like file []) (lookups.region token record) _ :=
    yields_borrow _ (fun s hs => hs.agree (objectHandle token) fun _ => rfl)
      fun handle _ id => hinner [(id, handle)]
  refine Eq.subst ?_ houter
  rw [regionPart]
  cases file.said "open_object" (file.objectHandle token) with
  | none => exact hunset.symm
  | some handle =>
    cases file.said "open_region" (file.regionHandle token) with
    | none => exact hunset.symm
    | some handle => rfl

/-- The dataspace of an open attribute is asked for its rank. -/
theorem yields_openRank {id : HandleId} {rank : Nat} {record : Record}
    (hunset : { record with regionRank := none } = record) :
    Yields (Like file [(id, .attribute rank)]) (Like file [])
      (lookups.borrow .dataspace (lookups.attributeSpace id)
        (fun space record => do
          return { record with regionRank := ← attempt (lookups.spaceRank space) })
        record)
      { record with regionRank := file.openRank (.attribute rank) } := by
  have hopened (s : File) (hs : Like file [(id, .attribute rank)] s) :
      (s.opened id >>= fun
        | .attribute rank => return .space rank
        | _ => throw (.resolution s!"handle {id.render} is not an attribute")) =
          (.ok (.space rank) : Except Error OpenHandle) := by
    rw [opened, hs.opened _ (List.mem_singleton.2 rfl)]
    rfl
  have hrank (space : HandleId) (s : File) (hs : Like file [(space, .space rank)] s) :
      rankOfSpace s space = .ok rank := by
    rw [rankOfSpace, opened, hs.opened _ (List.mem_singleton.2 rfl)]
    rfl
  refine Eq.subst ?_ (yields_borrow
    (fun _ => { record with regionRank := file.said "space_rank" (.ok rank) }) hopened ?_)
  · by_cases hname : "attribute_space" ∈ file.faults
    · rw [openRank, said_of_fault hname, said_of_fault hname]
      exact hunset.symm
    · rw [openRank, said_of_answered hname, said_of_answered hname]
      rfl
  · intro handle hhandle space
    obtain rfl := Except.ok.inj hhandle
    exact (yields_answer _ (hrank space)).bind ((Yields.pure _).weaken fun _ => Like.forget)

/-- What the dataspace of an attribute tells is put into a record that says
nothing of a rank. -/
theorem yields_rankOfAttribute {record : Record}
    (hunset : { record with regionRank := none } = record) :
    Yields (Like file []) (Like file []) (lookups.rankOfAttribute token record)
      { record with regionRank := file.attributeRank token } := by
  refine Eq.subst ?_ (yields_borrow
    (fun handle => { record with regionRank := file.openRank handle })
    (fun s hs => hs.agree (attributeHandle token) fun _ => rfl) ?_)
  · unfold attributeRank
    cases file.said "open_attribute" (file.attributeHandle token) with
    | none => exact hunset.symm
    | some handle => rfl
  · intro handle hhandle id
    obtain ⟨rank, rfl⟩ := attributeHandle_ok file hhandle
    exact yields_openRank file hunset

/-- A standard token is looked at by its kind. -/
theorem yields_standardRegion :
    Yields (Like file []) (Like file [])
      (lookups.standardRegion token
        { file.located token with
          kind := file.toldKind token .standard
          attributeName := file.toldAttribute token .standard })
      ((file.toldRegion token .standard).put
        { file.located token with
          kind := file.toldKind token .standard
          attributeName := file.toldAttribute token .standard
          objectType := file.toldType token .standard }) := by
  have htype := yields_typeOfObject file token
    { file.located token with
      kind := file.toldKind token .standard
      attributeName := file.toldAttribute token .standard } rfl
  unfold ReferenceLookups.standardRegion toldRegion toldType
  cases htold : file.toldKind token .standard with
  | unknown => exact .pure _
  | objectAddress | object | other =>
    rw [htold] at htype
    exact htype.bind (.pure _)
  | regionAddress | region =>
    rw [htold] at htype
    exact htype.bind (yields_region file rfl)
  | _ =>
    rw [htold] at htype
    exact htype.bind (yields_rankOfAttribute file rfl)

/-- **Resolving a token** yields its record, whatever the accounts of the
file are, and changes nothing but these. -/
theorem yields_resolve (flavor : ReferenceFlavor) :
    Yields (Like file []) (Like file []) (lookups.resolve flavor token)
      (file.describe flavor token) := by
  unfold ReferenceLookups.resolve describe
  split
  · exact .pure _
  · refine (yields_location file token).bind ?_
    cases flavor with
    | standard => exact (yields_kindAndAttribute file token).bind (yields_standardRegion file)
    | region => exact yields_region file rfl
    | object => exact (yields_typeOfObject file token _ rfl).bind (.pure _)

variable (token)

/-- The record of a token that a resolver with an empty cache has. -/
def firstRecord (capacity : Nat) (flavor : ReferenceFlavor) : Record :=
  (((Resolver.mk lookups flavor).record token (.ofCapacity capacity)).run file).1.1

theorem firstRecord_eq (capacity : Nat) (flavor : ReferenceFlavor) :
    file.firstRecord token capacity flavor = file.describe flavor token := by
  have hrun := Resolver.run_record ⟨lookups, flavor⟩ token (.ofCapacity capacity) file
  exact (congrArg (·.1.1) hrun).trans (yields_resolve file flavor file (.refl file)).1

end File

end Memory

end TypedAttr
