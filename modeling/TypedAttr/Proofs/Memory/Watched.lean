import TypedAttr.Proofs.Memory.Description
import TypedAttr.Proofs.Memory.Notes
/-!
# Backends under an observer

The look-ups and the sources of a file in memory, with a note taken of every
question. A file is `Reliable`: its questions change no handles but those
that they lend or take back, and refuse none that is open and of a kind that
they are for.
-/

namespace TypedAttr

namespace Memory

variable {σ α β : Type}

/-! ## Watched backends -/

/-- The kinds of handles that are for dataspaces. -/
def spaceKinds : List HandleKind := [.region, .dataspace]

/-- Look-ups of which every question is noted. -/
def watchedLookups (file : σ → File) (lookups : ReferenceLookups σ) :
    ReferenceLookups (σ × List Note) where
  release := watchReturn file lookups.release
  kind token := watchQuestion file [] (lookups.kind token)
  fileName token := watchQuestion file [] (lookups.fileName token)
  objectName token := watchQuestion file [] (lookups.objectName token)
  attributeName token := watchQuestion file [] (lookups.attributeName token)
  objectType token := watchQuestion file [] (lookups.objectType token)
  openObject token := watchLoan file [] (lookups.openObject token)
  openRegion token := watchLoan file [] (lookups.openRegion token)
  openAttribute token := watchLoan file [] (lookups.openAttribute token)
  attributeSpace id := watchLoan file [(id, [.attribute])] (lookups.attributeSpace id)
  spaceRank id := watchQuestion file [(id, spaceKinds)] (lookups.spaceRank id)
  selectionType id := watchQuestion file [(id, spaceKinds)] (lookups.selectionType id)
  selectionPoints id := watchQuestion file [(id, [.region])] (lookups.selectionPoints id)
  selectionBlocks id := watchQuestion file [(id, [.region])] (lookups.selectionBlocks id)

/-- The handles of a transaction, as they are given to its operations. -/
def ofTransaction (attr memory : HandleId) : List (HandleId × List HandleKind) :=
  [(attr, [.attribute]), (memory, [.datatype])]

/-- A source of which every operation is noted. -/
def watchedSource (file : σ → File) (source : AttributeSource σ) :
    AttributeSource (σ × List Note) where
  name := source.name
  type := source.type
  space := source.space
  readOnly := source.readOnly
  release := watchReturn file source.release
  openAttribute := watchLoan file [] source.openAttribute
  openNativeType attr := watchLoan file [(attr, [.attribute])] (source.openNativeType attr)
  readRaw attr memory length :=
    watchQuestion file (ofTransaction attr memory) (source.readRaw attr memory length)
  readVarTexts attr memory count :=
    watchQuestion file (ofTransaction attr memory) (source.readVarTexts attr memory count)
  readSequences attr memory count :=
    watchQuestion file (ofTransaction attr memory) (source.readSequences attr memory count)
  writeRaw attr memory bytes :=
    watchQuestion file (ofTransaction attr memory) (source.writeRaw attr memory bytes)
  writeVarTexts attr memory items :=
    watchQuestion file (ofTransaction attr memory) (source.writeVarTexts attr memory items)
  createReference path flavor := watchQuestion file [] (source.createReference path flavor)

/-- Look-ups that are each one question, and are quiet or lend what they say,
given the handles that they are for. -/
structure ReliableLookups (file : σ → File) (lookups : ReferenceLookups σ) : Prop where
  release : TakesBack file lookups.release
  kind (token : Token) : Quiet file 1 [] (lookups.kind token)
  fileName (token : Token) : Quiet file 1 [] (lookups.fileName token)
  objectName (token : Token) : Quiet file 1 [] (lookups.objectName token)
  attributeName (token : Token) : Quiet file 1 [] (lookups.attributeName token)
  objectType (token : Token) : Quiet file 1 [] (lookups.objectType token)
  openObject (token : Token) : Lends file 1 [] .object (lookups.openObject token)
  openRegion (token : Token) : Lends file 1 [] .region (lookups.openRegion token)
  openAttribute (token : Token) : Lends file 1 [] .attribute (lookups.openAttribute token)
  attributeSpace (id : HandleId) :
    Lends file 1 [⟨.attribute, id⟩] .dataspace (lookups.attributeSpace id)
  spaceRank {kind : HandleKind} (hkind : kind ∈ spaceKinds) (id : HandleId) :
    Quiet file 1 [⟨kind, id⟩] (lookups.spaceRank id)
  selectionType (id : HandleId) : Quiet file 1 [⟨.region, id⟩] (lookups.selectionType id)
  selectionPoints (id : HandleId) : Quiet file 1 [⟨.region, id⟩] (lookups.selectionPoints id)
  selectionBlocks (id : HandleId) : Quiet file 1 [⟨.region, id⟩] (lookups.selectionBlocks id)

/-- A source that is, too. -/
structure ReliableSource (file : σ → File) (source : AttributeSource σ) : Prop where
  release : TakesBack file source.release
  openAttribute : Lends file 1 [] .attribute source.openAttribute
  openNativeType (attr : HandleId) :
    Lends file 1 [⟨.attribute, attr⟩] .datatype (source.openNativeType attr)
  readRaw (attr memory : HandleId) (length : Nat) :
    Quiet file 1 [⟨.datatype, memory⟩, ⟨.attribute, attr⟩] (source.readRaw attr memory length)
  readVarTexts (attr memory : HandleId) (count : Nat) :
    Quiet file 1 [⟨.datatype, memory⟩, ⟨.attribute, attr⟩] (source.readVarTexts attr memory count)
  readSequences (attr memory : HandleId) (count : Nat) :
    Quiet file 1 [⟨.datatype, memory⟩, ⟨.attribute, attr⟩] (source.readSequences attr memory count)
  writeRaw (attr memory : HandleId) (bytes : Bytes) :
    Quiet file 1 [⟨.datatype, memory⟩, ⟨.attribute, attr⟩] (source.writeRaw attr memory bytes)
  writeVarTexts (attr memory : HandleId) (items : List String) :
    Quiet file 1 [⟨.datatype, memory⟩, ⟨.attribute, attr⟩] (source.writeVarTexts attr memory items)
  createReference (path : String) (flavor : ReferenceFlavor) :
    Quiet file 1 [] (source.createReference path flavor)

/-! ## Errors of look-ups -/

/-- A result that is no refusal of a handle. -/
def Calm (result : Except Error α) : Prop := ∀ e, result = .error e → ¬e.OfHandle

namespace Calm

theorem ok (a : α) : Calm (.ok a : Except Error α) := fun _ h => by cases h

theorem error {e : Error} (h : ¬e.OfHandle) : Calm (.error e : Except Error α) := by
  rintro _ ⟨⟩
  exact h

theorem bind {result : Except Error α} {next : α → Except Error β} (h : Calm result)
    (hnext : ∀ a, Calm (next a)) : Calm (result >>= next) := by
  cases result with
  | ok a => exact hnext a
  | error e => exact error (h e rfl)

end Calm

namespace File

variable {held : List HeldHandle} {file : File}

theorem calm_reference (file : File) (token : Token) : Calm (file.reference token) := by
  rw [reference]
  split
  · exact .ok _
  · exact .error fun h => h

theorem calm_object (file : File) (id : ObjectId) : Calm (file.object id) := by
  rw [object]
  split
  · exact .ok _
  · exact .error fun h => h

theorem calm_targetObject (file : File) (token : Token) : Calm (file.targetObject token) :=
  (calm_reference file token).bind fun _ => calm_object file _

/-- A handle that is held can be looked into, and is of its kind. -/
theorem opened_of_holding {kind : HandleKind} {id : HandleId}
    (h : Holding [⟨kind, id⟩] file) :
    ∃ handle, file.opened id = .ok handle ∧ handle.kind = kind := by
  have hopened := h.opened _ (List.mem_singleton.2 rfl)
  rw [checkHandle] at hopened
  rw [opened]
  cases hhandle : file.handle? id with
  | none =>
    rw [hhandle] at hopened
    cases hopened
  | some handle =>
    rw [hhandle] at hopened
    dsimp only at hopened
    split at hopened
    · exact ⟨handle, rfl, ‹_›⟩
    · cases hopened

/-! ## Reliable files -/

theorem asked_counted (file : File) : Asked 1 file file.counted := ⟨rfl, rfl, rfl⟩

theorem holding_counted (h : Holding held file) : Holding held file.counted :=
  h.of_handles rfl (Nat.le_refl _)

theorem quiet_answer {name : String} {lookup : File → Except Error α}
    (hname : name.toList.head? ≠ some 'h') (h : ∀ file, Holding held file → Calm (lookup file)) :
    Quiet id 1 held (answer name lookup) := by
  intro file hfile
  have hcalm := h _ (holding_counted hfile)
  have hasked := asked_counted file
  rw [stateAfter, answer_eq]
  by_cases hfault : name ∈ file.faults
  · rw [if_pos hfault]
    refine ⟨hasked, ?_⟩
    rintro e t ⟨⟩
    exact Error.not_refusesHandle_failed hname
  · rw [if_neg hfault]
    cases hfound : lookup file.counted with
    | ok a => exact ⟨hasked, fun e t h => by cases h⟩
    | error e =>
      refine ⟨hasked, ?_⟩
      rintro e t ⟨⟩
      exact hcalm e hfound

theorem lends_answerHandle {name : String} {kind : HandleKind}
    {lookup : File → Except Error OpenHandle} (hname : name.toList.head? ≠ some 'h')
    (h : ∀ file, Holding held file → Calm (lookup file))
    (hkind : ∀ file, Holding held file → ∀ handle, lookup file = .ok handle → handle.kind = kind) :
    Lends id 1 held kind (answerHandle name lookup) := by
  constructor
  · intro file taken t hfile hok
    rw [answerHandle_eq] at hok
    split at hok
    · cases hok
    · cases hfound : lookup file.counted with
      | error e =>
        rw [hfound] at hok
        cases hok
      | ok handle =>
        rw [hfound] at hok
        cases hok
        exact ⟨rfl, ⟨handle, hkind _ (holding_counted hfile) handle hfound, rfl⟩, rfl, rfl⟩
  · intro file e t hfile herror
    rw [answerHandle_eq] at herror
    split at herror
    · cases herror
      exact ⟨asked_counted file, Error.not_refusesHandle_failed hname⟩
    · cases hfound : lookup file.counted with
      | ok handle =>
        rw [hfound] at herror
        cases herror
      | error e' =>
        rw [hfound] at herror
        cases herror
        exact ⟨asked_counted file, h _ (holding_counted hfile) e hfound⟩

theorem takesBack_release : TakesBack id release := by
  intro kind taken file hopened
  have hopened' : file.checkHandle kind taken = .ok () := hopened
  refine ⟨{ file with handles := file.handles.filter (·.1 ≠ taken) }, ?_, rfl, rfl, rfl⟩
  rw [release, hopened']

/-- The rank of a dataspace that is held is known. -/
theorem calm_rankOfSpace {kind : HandleKind} (hkind : kind ∈ spaceKinds)
    {taken : HandleId} (h : Holding [⟨kind, taken⟩] file) : Calm (file.rankOfSpace taken) := by
  obtain ⟨handle, hopened, rfl⟩ := opened_of_holding h
  rw [rankOfSpace, hopened]
  cases handle with
  | region | space => exact .ok _
  | _ => simp [OpenHandle.kind, spaceKinds] at hkind

theorem calm_regionHandle (file : File) (token : Token) : Calm (file.regionHandle token) := by
  refine (calm_reference file token).bind fun found => ?_
  cases found.target with
  | region => exact (calm_object file _).bind fun _ => .ok _
  | _ => exact .error (Error.not_refusesHandle_of_head (by simp))

theorem calm_attributeHandle (file : File) (token : Token) :
    Calm (file.attributeHandle token) := by
  refine (calm_reference file token).bind fun found => ?_
  cases found.target with
  | object | region | other => exact .error (Error.not_refusesHandle_of_head (by simp))
  | _ => exact .ok _

theorem calm_attributeNameOf (file : File) (token : Token) :
    Calm (file.attributeNameOf token) := by
  refine (calm_reference file token).bind fun found => ?_
  cases found.target with
  | object | region | other => exact .error (Error.not_refusesHandle_of_head (by simp))
  | _ => exact .ok _

theorem opened_of_holding_attribute {taken : HandleId}
    (h : Holding [⟨.attribute, taken⟩] file) :
    ∃ rank, file.opened taken = .ok (.attribute rank) := by
  obtain ⟨handle, hopened, hkind⟩ := opened_of_holding h
  cases handle with
  | nativeType | object | region | space => cases hkind
  | _ => exact ⟨_, hopened⟩

theorem opened_of_holding_region {taken : HandleId} (h : Holding [⟨.region, taken⟩] file) :
    ∃ selection rank, file.opened taken = .ok (.region selection rank) := by
  obtain ⟨handle, hopened, hkind⟩ := opened_of_holding h
  cases handle with
  | region selection rank => exact ⟨selection, rank, hopened⟩
  | _ => cases hkind

theorem calm_selectionOfSpace {taken : HandleId} (h : Holding [⟨.region, taken⟩] file) :
    Calm (file.selectionOfSpace taken) := by
  obtain ⟨selection, rank, hopened⟩ := opened_of_holding_region h
  rw [selectionOfSpace, hopened]
  exact .ok _

/-- **A file is reliable.** -/
theorem reliable_lookups : ReliableLookups id lookups where
  release := takesBack_release
  kind token := quiet_answer (by simp) fun file _ =>
    (calm_reference file token).bind fun _ => .ok _
  fileName token := quiet_answer (by simp) fun file _ =>
    (calm_reference file token).bind fun _ => .ok _
  objectName token := quiet_answer (by simp) fun file _ =>
    (calm_targetObject file token).bind fun _ => .ok _
  attributeName token := quiet_answer (by simp) fun file _ => calm_attributeNameOf file token
  objectType token := quiet_answer (by simp) fun file _ =>
    (calm_targetObject file token).bind fun _ => .ok _
  openObject token := by
    refine lends_answerHandle (by simp)
      (fun file _ => (calm_reference file token).bind fun _ => .ok _) fun file _ handle hok => ?_
    obtain ⟨found, -, hhandle⟩ := exceptBind_ok hok
    cases hhandle
    rfl
  openRegion token := by
    refine lends_answerHandle (by simp) (fun file _ => calm_regionHandle file token)
      fun file _ handle hok => ?_
    obtain ⟨selection, rank, rfl⟩ := regionHandle_ok file hok
    rfl
  openAttribute token := by
    refine lends_answerHandle (by simp) (fun file _ => calm_attributeHandle file token)
      fun file _ handle hok => ?_
    obtain ⟨rank, rfl⟩ := attributeHandle_ok file hok
    rfl
  attributeSpace taken := by
    refine lends_answerHandle (by simp) (fun file h => ?_) fun file h handle hok => ?_
    · obtain ⟨rank, hopened⟩ := opened_of_holding_attribute h
      rw [hopened]
      exact .ok _
    · obtain ⟨rank, hopened⟩ := opened_of_holding_attribute h
      rw [hopened] at hok
      cases hok
      rfl
  spaceRank hkind taken := quiet_answer (by simp) fun file h => calm_rankOfSpace hkind h
  selectionType taken := quiet_answer (by simp) fun file h => calm_selectionOfSpace h
  selectionPoints taken := by
    refine quiet_answer (by simp) fun file h => ?_
    obtain ⟨selection, rank, hopened⟩ := opened_of_holding_region h
    rw [hopened]
    cases selection with
    | points => exact .ok _
    | _ => exact .error (Error.not_refusesHandle_of_head (by simp))
  selectionBlocks taken := by
    refine quiet_answer (by simp) fun file h => ?_
    obtain ⟨selection, rank, hopened⟩ := opened_of_holding_region h
    rw [hopened]
    cases selection with
    | blocks => exact .ok _
    | _ => exact .error (Error.not_refusesHandle_of_head (by simp))

/-- A question that goes on without its answer being looked up. -/
theorem quiet_enter {name : String} (hname : name.toList.head? ≠ some 'h') :
    Quiet id 1 held (enter name) := by
  intro file _
  have hasked := asked_counted file
  rw [stateAfter, enter_eq]
  by_cases hfault : name ∈ file.faults
  · rw [if_pos hfault]
    refine ⟨hasked, ?_⟩
    rintro e t ⟨⟩
    exact Error.not_refusesHandle_failed hname
  · rw [if_neg hfault]
    exact ⟨hasked, fun e t herror => by cases herror⟩

theorem lends_lend (handle : OpenHandle) : Lends id 0 held handle.kind (lend handle) where
  ok := by
    rintro file _ _ _ ⟨⟩
    exact ⟨rfl, ⟨handle, rfl, rfl⟩, rfl, rfl⟩
  error := by
    rintro file e t _ ⟨⟩

/-- A handle that is lent if another is held, which it is. -/
theorem lends_checked {kind : HandleKind} {taken : HandleId} (handle : OpenHandle) :
    Lends id 0 [⟨kind, taken⟩] handle.kind
      (get >>= fun file => Action.ofExcept (file.checkHandle kind taken) >>= fun _ =>
        lend handle) := by
  have hchecked {file : File} (h : Holding [⟨kind, taken⟩] file) :
      (get >>= fun file => Action.ofExcept (file.checkHandle kind taken) >>= fun _ =>
        lend handle) file = lend handle file := by
    rw [get_bind, h.opened _ (List.mem_singleton.2 rfl)]
    rfl
  constructor
  · intro file _ t hfile hok
    exact (lends_lend handle).ok hfile ((hchecked hfile).symm.trans hok)
  · intro file e t hfile herror
    have hlent := (hchecked hfile).symm.trans herror
    cases hlent

end File

/-! ## Reliable stores -/

section Stores

variable {asked : Nat} {held : List HeldHandle}

/-- What is quiet in a file is quiet in a store with it. -/
theorem Quiet.onFile {action : Action File α} (h : Quiet id asked held action) :
    Quiet Store.file asked held (StoredAttribute.onFile action) := by
  intro s hs
  rw [stateAfter, StoredAttribute.onFile, Action.onPart]
  cases haction : action s.file with
  | ok a file => exact ⟨(h.asked_of_ok hs haction).1, fun e t herror => by cases herror⟩
  | error e file =>
    obtain ⟨hasked, hcalm⟩ := h.asked_of_error hs haction
    refine ⟨hasked, ?_⟩
    rintro e t ⟨⟩
    exact hcalm

theorem Lends.onFile {kind : HandleKind} {take : Action File HandleId}
    (h : Lends id asked held kind take) :
    Lends Store.file asked held kind (StoredAttribute.onFile take) := by
  constructor
  · intro s taken t hs hok
    rw [StoredAttribute.onFile, Action.onPart] at hok
    cases htake : take s.file with
    | ok a file =>
      rw [htake] at hok
      cases hok
      exact h.ok hs htake
    | error e file =>
      rw [htake] at hok
      cases hok
  · intro s e t hs herror
    rw [StoredAttribute.onFile, Action.onPart] at herror
    cases htake : take s.file with
    | ok a file =>
      rw [htake] at herror
      cases herror
    | error e' file =>
      rw [htake] at herror
      cases herror
      exact h.error hs htake

theorem TakesBack.onFile {release : HandleKind → HandleId → Action File Unit}
    (h : TakesBack id release) :
    TakesBack Store.file fun kind taken => StoredAttribute.onFile (release kind taken) := by
  intro kind taken s hopened
  obtain ⟨file, hrelease, hfile⟩ := h kind taken s.file hopened
  refine ⟨{ s with file := file }, ?_, hfile⟩
  change StoredAttribute.onFile (release kind taken) s = _
  rw [StoredAttribute.onFile, Action.onPart, hrelease]

end Stores

namespace StoredAttribute

/-- **A store's look-ups are reliable**, as its file's are. -/
theorem reliable_lookups : ReliableLookups Store.file lookups where
  release := File.reliable_lookups.release.onFile
  kind token := (File.reliable_lookups.kind token).onFile
  fileName token := (File.reliable_lookups.fileName token).onFile
  objectName token := (File.reliable_lookups.objectName token).onFile
  attributeName token := (File.reliable_lookups.attributeName token).onFile
  objectType token := (File.reliable_lookups.objectType token).onFile
  openObject token := (File.reliable_lookups.openObject token).onFile
  openRegion token := (File.reliable_lookups.openRegion token).onFile
  openAttribute token := (File.reliable_lookups.openAttribute token).onFile
  attributeSpace taken := (File.reliable_lookups.attributeSpace taken).onFile
  spaceRank hkind taken := (File.reliable_lookups.spaceRank hkind taken).onFile
  selectionType taken := (File.reliable_lookups.selectionType taken).onFile
  selectionPoints taken := (File.reliable_lookups.selectionPoints taken).onFile
  selectionBlocks taken := (File.reliable_lookups.selectionBlocks taken).onFile

variable {attr memory : HandleId}

/-- With both handles held, an operation fails only if it is made to. -/
theorem access_of_holding {s : Store}
    (h : Holding [⟨.datatype, memory⟩, ⟨.attribute, attr⟩] s.file) (name : String)
    (wrap : String → Error) :
    access name wrap attr memory s =
      if name ∈ s.file.faults then
        .error (.resolution s!"{name} failed") { s with file := s.file.counted }
      else .ok s.content { s with file := s.file.counted } := by
  have hcounted := File.holding_counted h
  have hattr := hcounted.opened ⟨.attribute, attr⟩ (by simp)
  have hmemory := hcounted.opened ⟨.datatype, memory⟩ (by simp)
  have hask : onFile (File.enter name) s = if name ∈ s.file.faults then
      .error (.resolution s!"{name} failed") { s with file := s.file.counted }
      else .ok () { s with file := s.file.counted } := by
    rw [onFile, Action.onPart, File.enter_eq]
    by_cases hname : name ∈ s.file.faults
    · rw [if_pos hname, if_pos hname]
    · rw [if_neg hname, if_neg hname]
  rw [access_eq]
  by_cases hname : name ∈ s.file.faults
  · rw [if_pos hname] at hask ⊢
    exact bind_of_error hask _
  · rw [if_neg hname] at hask ⊢
    rw [bind_of_ok hask, get_bind, opened, hattr, hmemory]
    rfl

/-- An operation that then only looks at what is stored, or replaces it, is
quiet. -/
theorem quiet_access {name : String} {wrap : String → Error} {next : Content → Action Store α}
    (hname : name.toList.head? ≠ some 'h')
    (hnext : ∀ content s, (stateAfter (next content) s).file = s.file)
    (hcalm : ∀ content s e t, next content s = .error e t → ¬e.OfHandle) :
    Quiet Store.file 1 [⟨.datatype, memory⟩, ⟨.attribute, attr⟩]
      (access name wrap attr memory >>= next) := by
  intro s hs
  have haccess := access_of_holding hs name wrap
  have hasked := File.asked_counted s.file
  by_cases hfault : name ∈ s.file.faults
  · rw [if_pos hfault] at haccess
    have hrun := bind_of_error haccess next
    rw [stateAfter, hrun]
    refine ⟨hasked, ?_⟩
    rintro e t ⟨⟩
    exact Error.not_refusesHandle_failed hname
  · rw [if_neg hfault] at haccess
    have hrun := bind_of_ok haccess next
    have hafter : stateAfter (access name wrap attr memory >>= next) s =
        stateAfter (next s.content) { s with file := s.file.counted } := by
      rw [stateAfter, hrun, stateAfter]
    rw [hafter, hnext]
    refine ⟨hasked, fun e t herror => ?_⟩
    rw [hrun] at herror
    exact hcalm _ _ _ _ herror

variable (stored : StoredAttribute)

theorem quiet_createReference (path : String) (flavor : ReferenceFlavor) :
    Quiet id 1 [] (createReference path flavor) := by
  refine (File.quiet_enter (by simp)).bind fun _ => Quiet.get.bind fun file => ?_
  cases file.find? path with
  | none => exact .throw fun h => h
  | some found =>
    cases flavor with
    | standard | object =>
      exact fun _ _ => ⟨⟨rfl, rfl, rfl⟩, fun e t herror => by cases herror⟩
    | region => exact .throw fun h => h

/-- **An attribute's source is reliable.** -/
theorem reliable_source : ReliableSource Store.file stored.source where
  release := File.takesBack_release.onFile
  openAttribute := by
    refine Lends.onFile ((File.quiet_enter (by simp)).lends fun _ => ?_)
    exact File.lends_lend (.attribute stored.space.rank)
  openNativeType attr := by
    refine Lends.onFile ((File.quiet_enter (by simp)).lends fun _ => ?_)
    exact File.lends_checked .nativeType
  readRaw attr memory length := by
    refine quiet_access (by simp) (fun content s => ?_) fun content s e t herror => ?_
    · cases content with
      | packed bytes =>
        dsimp only
        split <;> rfl
      | varTexts | runs => rfl
    · cases content with
      | packed bytes =>
        dsimp only at herror
        split at herror
        · cases herror
        · cases herror
          exact Error.not_refusesHandle_number _ _
      | varTexts | runs =>
        cases herror
        exact Error.not_refusesHandle_append _ (by simp)
          (by simp [Error.map_ending_lastWords, Error.ending])
  readVarTexts attr memory count := by
    refine quiet_access (by simp) (fun content s => by cases content <;> rfl)
      fun content s e t herror => ?_
    cases content with
    | varTexts => cases herror
    | packed | runs =>
      cases herror
      exact Error.not_refusesHandle_append _ (by simp)
        (by simp [Error.map_ending_lastWords, Error.ending])
  readSequences attr memory count := by
    refine quiet_access (by simp) (fun content s => by cases content <;> rfl)
      fun content s e t herror => ?_
    cases content with
    | runs => cases herror
    | packed | varTexts =>
      cases herror
      exact Error.not_refusesHandle_append _ (by simp)
        (by simp [Error.map_ending_lastWords, Error.ending])
  writeRaw attr memory bytes := by
    refine quiet_access (by simp) (fun content s => ?_) fun content s e t herror => ?_
    · dsimp only
      split <;> rfl
    · split at herror
      · cases herror
      · cases herror
        exact Error.not_refusesHandle_number _ _
  writeVarTexts attr memory items :=
    quiet_access (by simp) (fun _ _ => rfl) fun content s e t herror => by cases herror
  createReference path flavor := (quiet_createReference path flavor).onFile

end StoredAttribute

end Memory

end TypedAttr
