import TypedAttr.Attribute.Transaction
import TypedAttr.Memory.Attribute
import TypedAttr.Proofs.Backend.Keeps
/-!
# Stores

A store is a file and what is stored of an attribute. The operations of its
backend are told apart by what they can change: of the file, no operation
changes which questions fail, and only two operations change what is stored.
A view that shows no more than that is `Steady`, and everything but those two
keeps it. If nothing is made to fail, a transaction gets its handles
(`withHandles_of_healthy`) and each operation gets to what is stored
(`access_of_inTransaction`).
-/

namespace TypedAttr

namespace Memory

variable {α : Type}

/-! ## Files -/

namespace File

/-- Asking a question does not change which questions fail. -/
theorem keeps_faults_enter (name : String) : Keeps faults (enter name) := by
  intro file
  unfold stateAfter enter
  by_cases h : name ∈ file.faults
  · simp only [h, if_true]
  · simp only [h, if_false]

theorem keeps_faults_lend (handle : OpenHandle) : Keeps faults (lend handle) := fun _ => rfl

theorem keeps_faults_release (kind : HandleKind) (id : HandleId) :
    Keeps faults (release kind id) := by
  intro file
  unfold stateAfter release
  cases file.checkHandle kind id with
  | ok _ => rfl
  | error e => rfl

/-- A question is answered if nothing is made to fail. -/
theorem enter_of_healthy {file : File} (h : file.faults = []) (name : String) :
    enter name file = .ok () { file with calls := file.calls + 1 } := by
  unfold enter
  simp only [h, List.not_mem_nil, if_false]

/-- The file once a question was answered by a handle. -/
def lending (file : File) (handle : OpenHandle) : File :=
  { file with
    calls := file.calls + 1
    lent := file.lent + 1
    handles := (⟨file.lent⟩, handle) :: file.handles }

theorem lend_of_healthy {file : File} (h : file.faults = []) (name : String)
    (handle : OpenHandle) :
    (enter name >>= fun _ => lend handle) file = .ok ⟨file.lent⟩ (file.lending handle) := by
  rw [bind_of_ok (enter_of_healthy h name)]
  rfl

/-- The handle that was lent last is open. -/
theorem checkHandle_lending (file : File) (handle : OpenHandle) :
    (file.lending handle).checkHandle handle.kind ⟨file.lent⟩ = .ok () := by
  simp [checkHandle, handle?, lending]

/-- And those before it stay open. -/
theorem checkHandle_lending_of_ne {file : File} {id : HandleId} (h : id ≠ ⟨file.lent⟩)
    (handle : OpenHandle) (kind : HandleKind) :
    (file.lending handle).checkHandle kind id = file.checkHandle kind id := by
  simp [checkHandle, handle?, lending, Ne.symm h]

end File

namespace StoredAttribute

variable (stored : StoredAttribute)

/-! ## Views of a store -/

/-- The questions that fail in a store's file. -/
def faults (s : Store) : List String := s.file.faults

/-- A view that shows nothing of the file but, at most, which questions
fail. No operation changes that. -/
def Steady {β : Type} (view : Store → β) : Prop :=
  ∀ {γ : Type} {action : Action File γ}, Keeps File.faults action → Keeps view (onFile action)

theorem steady_content : Steady Store.content := by
  intro γ action _
  unfold onFile
  refine Keeps.onPart ?_ action
  intro file store
  rfl

theorem steady_faults : Steady faults := by
  intro γ action h s
  have hfile := h s.file
  unfold stateAfter at hfile
  unfold stateAfter onFile Action.onPart
  cases hrun : action s.file with
  | ok a file =>
    rw [hrun] at hfile
    exact hfile
  | error e file =>
    rw [hrun] at hfile
    exact hfile

/-- What an operation looks at, if its handles are open. -/
def opened (wrap : String → Error) (attr memory : HandleId) (s : Store) : Except Error Content :=
  match s.file.checkHandle .attribute attr with
  | .error e => .error (wrap e.message)
  | .ok _ =>
    match s.file.checkHandle .datatype memory with
    | .error e => .error (wrap e.message)
    | .ok _ => .ok s.content

theorem access_eq (name : String) (wrap : String → Error) (attr memory : HandleId) :
    access name wrap attr memory =
      onFile (File.enter name) >>= fun _ => get >>= fun s =>
        Action.ofExcept (opened wrap attr memory s) := by
  unfold access opened
  refine congrArg _ (funext fun _ => congrArg _ (funext fun s => ?_))
  cases s.file.checkHandle .attribute attr with
  | error e => rfl
  | ok _ => cases s.file.checkHandle .datatype memory <;> rfl

theorem opened_ok {wrap : String → Error} {attr memory : HandleId} {s : Store} {content : Content}
    (h : opened wrap attr memory s = .ok content) : content = s.content := by
  unfold opened at h
  split at h
  · cases h
  · split at h
    · cases h
    · exact (Except.ok.inj h).symm

section Steady

variable {β : Type} {view : Store → β} (hview : Steady view)
include hview

theorem Steady.keeps_release (kind : HandleKind) (id : HandleId) :
    Keeps view (stored.source.release kind id) :=
  hview (File.keeps_faults_release kind id)

theorem Steady.keeps_openAttribute : Keeps view stored.source.openAttribute :=
  hview ((File.keeps_faults_enter _).bind fun _ => File.keeps_faults_lend _)

theorem Steady.keeps_openNativeType (attr : HandleId) :
    Keeps view (stored.source.openNativeType attr) :=
  hview ((File.keeps_faults_enter _).bind fun _ => Keeps.get.bind fun _ =>
    (Keeps.ofExcept _).bind fun _ => File.keeps_faults_lend _)

theorem Steady.keeps_createReference (path : String) (flavor : ReferenceFlavor) :
    Keeps view (stored.source.createReference path flavor) := by
  refine hview ((File.keeps_faults_enter _).bind fun _ => Keeps.get.bind fun file => ?_)
  cases file.find? path with
  | none => exact .throw _
  | some id =>
    cases flavor with
    | standard | object => exact fun _ => rfl
    | region => exact .throw _

theorem Steady.keeps_access {name : String} {wrap : String → Error} {attr memory : HandleId} :
    Keeps view (access name wrap attr memory) := by
  rw [access_eq]
  exact (hview (File.keeps_faults_enter _)).bind fun _ => Keeps.get.bind fun _ => .ofExcept _

/-- A transaction keeps what its body keeps. -/
theorem Steady.keeps_withHandles {body : HandleId → HandleId → Action Store α}
    (hbody : ∀ attr memory, Keeps view (body attr memory)) :
    Keeps view (stored.source.withHandles body) :=
  .withHandle (hview.keeps_release stored) (hview.keeps_openAttribute stored) fun attr =>
    .withHandle (hview.keeps_release stored) (hview.keeps_openNativeType stored attr) (hbody attr)

theorem Steady.keepsOnError_withHandles {body : HandleId → HandleId → Action Store α}
    (hbody : ∀ attr memory, KeepsOnError view (body attr memory)) :
    KeepsOnError view (stored.source.withHandles body) :=
  .withHandle (hview.keeps_release stored) (hview.keeps_openAttribute stored) fun attr =>
    .withHandle (hview.keeps_release stored) (hview.keeps_openNativeType stored attr) (hbody attr)

end Steady

/-! ## Handles -/

/-- A store within a transaction: nothing is made to fail, and both handles
are open. -/
structure InTransaction (s : Store) (attr memory : HandleId) : Prop where
  faults : s.file.faults = []
  attr : s.file.checkHandle .attribute attr = .ok ()
  memory : s.file.checkHandle .datatype memory = .ok ()

theorem openAttribute_of_healthy {s : Store} (h : s.file.faults = []) :
    stored.source.openAttribute s =
      .ok ⟨s.file.lent⟩ { s with file := s.file.lending (.attribute stored.space.rank) } := by
  change onFile (File.enter "open_attribute" >>= fun _ => File.lend _) s = _
  rw [onFile, Action.onPart, File.lend_of_healthy h]

theorem openNativeType_of_healthy {s : Store} {attr : HandleId} (h : s.file.faults = [])
    (hattr : s.file.checkHandle .attribute attr = .ok ()) :
    stored.source.openNativeType attr s =
      .ok ⟨s.file.lent⟩ { s with file := s.file.lending .nativeType } := by
  -- the attribute's handle is still open once the question was counted
  have hcheck : ({ s.file with calls := s.file.calls + 1 } : File).checkHandle .attribute attr =
      .ok () := hattr
  change onFile (File.enter "open_native_type" >>= fun _ => get >>= fun file =>
    Action.ofExcept (file.checkHandle .attribute attr) >>= fun _ => File.lend .nativeType) s = _
  rw [onFile, Action.onPart, bind_of_ok (File.enter_of_healthy h _), get_bind, hcheck]
  rfl

/-- **A transaction gets its handles** if nothing is made to fail, and what
it then succeeds in it succeeds in as a whole. -/
theorem withHandles_of_healthy {s : Store} (h : s.file.faults = []) :
    ∃ attr memory t, InTransaction t attr memory ∧ t.content = s.content ∧
      ∀ {α : Type} {body : HandleId → HandleId → Action Store α} {a : α} {t' : Store},
        body attr memory t = .ok a t' → ∃ s', stored.source.withHandles body s = .ok a s' := by
  -- the file after the first handle was lent, and after both were
  let opened := s.file.lending (.attribute stored.space.rank)
  let both := opened.lending .nativeType
  have hattr : opened.checkHandle .attribute ⟨s.file.lent⟩ = .ok () :=
    s.file.checkHandle_lending (.attribute stored.space.rank)
  have hne : (⟨s.file.lent⟩ : HandleId) ≠ ⟨opened.lent⟩ := by
    simp only [ne_eq, HandleId.mk.injEq, opened, File.lending]
    omega
  refine ⟨⟨s.file.lent⟩, ⟨opened.lent⟩, { s with file := both },
    ⟨h, (File.checkHandle_lending_of_ne hne _ _).trans hattr, opened.checkHandle_lending _⟩, rfl,
    fun hbody => ⟨_, withHandle_of_ok (stored.openAttribute_of_healthy h) ?_
      (withHandle_of_ok (stored.openNativeType_of_healthy h hattr) ?_ hbody)⟩⟩
  · simp [HandleId.isValid]
  · simp [HandleId.isValid]

/-- A transaction that succeeds does so with what was stored before it. -/
theorem withHandles_ok {body : HandleId → HandleId → Action Store α} {s s' : Store} {a : α}
    (h : stored.source.withHandles body s = .ok a s') :
    ∃ attr memory t t', t.content = s.content ∧ body attr memory t = .ok a t' ∧
      s'.content = t'.content := by
  obtain ⟨attr, t, t', hattr, hbody, rfl⟩ := withHandle_ok h
  obtain ⟨memory, u, u', hmemory, hinner, rfl⟩ := withHandle_ok hbody
  have hopen := (steady_content.keeps_openAttribute stored).acquire.of_ok hattr
  have hnative := (steady_content.keeps_openNativeType stored attr).acquire.of_ok hmemory
  refine ⟨attr, memory, u, u', hnative.trans hopen, hinner, ?_⟩
  exact (steady_content.keeps_release stored .attribute attr _).trans
    (steady_content.keeps_release stored .datatype memory _)

/-! ## What is stored -/

/-- An operation looks at what is stored. -/
theorem access_ok {name : String} {wrap : String → Error} {attr memory : HandleId}
    {s s' : Store} {content : Content} (h : access name wrap attr memory s = .ok content s') :
    content = s.content := by
  rw [access_eq] at h
  obtain ⟨_, t, hask, hrest⟩ := bind_ok h
  obtain ⟨_, _, hget, hopened⟩ := bind_ok hrest
  cases hget
  have hkept := (steady_content (File.keeps_faults_enter _)).of_ok hask
  exact (opened_ok (ofExcept_ok hopened).1).trans hkept

/-- Within a transaction an operation gets to what is stored. -/
theorem access_of_inTransaction {s : Store} {attr memory : HandleId}
    (h : InTransaction s attr memory) (name : String) (wrap : String → Error) :
    access name wrap attr memory s =
      .ok s.content { s with file := { s.file with calls := s.file.calls + 1 } } := by
  let asked : Store := { s with file := { s.file with calls := s.file.calls + 1 } }
  have hask : onFile (File.enter name) s = .ok () asked := by
    rw [onFile, Action.onPart, File.enter_of_healthy h.faults]
  -- asking a question closes no handle
  have hattr : asked.file.checkHandle .attribute attr = .ok () := h.attr
  have hmemory : asked.file.checkHandle .datatype memory = .ok () := h.memory
  have hopened : opened wrap attr memory asked = .ok s.content := by
    simp only [opened, hattr, hmemory, asked]
  rw [access_eq, bind_of_ok hask, get_bind, hopened]
  rfl

end StoredAttribute

end Memory

end TypedAttr
