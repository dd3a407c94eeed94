import TypedAttr.Proofs.Memory.Notes
import TypedAttr.Proofs.Memory.Questions
/-!
# How a transaction opens and closes

A transaction asks a file two questions before anything else: for the
attribute's handle and for its type's. If neither is made to fail, the
transaction is its body between two stores (`withHandles_eq`): `begun`, with
the next two numbers lent, and `ended`, with both taken back. If one is made
to fail, the body is not run (`withHandles_of_fault`).
-/

namespace TypedAttr

namespace Memory

namespace StoredAttribute

variable {α : Type} (stored : StoredAttribute)

/-- The store once a transaction has the attribute's handle. -/
def halfway (s : Store) : Store :=
  { s with file := s.file.lending (.attribute stored.space.rank) }

/-- The store once it has the type's, too. -/
def begun (s : Store) : Store :=
  { s with file := (stored.halfway s).file.lending .nativeType }

/-- The store `t` once a transaction that began in `s` gave them back, the
type's first. -/
def ended (s t : Store) : Store :=
  stateAfter (stored.source.release .attribute ⟨s.file.lent⟩)
    (stateAfter (stored.source.release .datatype ⟨s.file.lent + 1⟩) t)

/-- Whether both questions for handles are answered. -/
def Opens (s : Store) : Prop :=
  "open_attribute" ∉ s.file.faults ∧ "open_native_type" ∉ s.file.faults

instance (s : Store) : Decidable (Opens s) := inferInstanceAs (Decidable (_ ∧ _))

theorem openAttribute_eq (s : Store) :
    stored.source.openAttribute s =
      if "open_attribute" ∈ s.file.faults then
        .error (.resolution "open_attribute failed") { s with file := s.file.counted }
      else .ok ⟨s.file.lent⟩ (stored.halfway s) := by
  change onFile (File.enter "open_attribute" >>= fun _ => File.lend _) s = _
  rw [onFile, Action.onPart]
  have henter := File.enter_eq "open_attribute" s.file
  by_cases hfault : "open_attribute" ∈ s.file.faults
  · rw [if_pos hfault] at henter ⊢
    rw [bind_of_error henter]
    rfl
  · rw [if_neg hfault] at henter ⊢
    rw [bind_of_ok henter]
    rfl

theorem openNativeType_eq (s : Store) :
    stored.source.openNativeType ⟨s.file.lent⟩ (stored.halfway s) =
      if "open_native_type" ∈ s.file.faults then
        .error (.resolution "open_native_type failed")
          { s with file := (stored.halfway s).file.counted }
      else .ok ⟨s.file.lent + 1⟩ (stored.begun s) := by
  -- the attribute's handle is still open once the question was counted
  have hcounted : (stored.halfway s).file.counted.checkHandle .attribute ⟨s.file.lent⟩ = .ok () :=
    s.file.checkHandle_lending (.attribute stored.space.rank)
  change onFile (File.enter "open_native_type" >>= fun _ => get >>= fun file =>
    Action.ofExcept (file.checkHandle .attribute ⟨s.file.lent⟩) >>= fun _ =>
      File.lend .nativeType) (stored.halfway s) = _
  rw [onFile, Action.onPart]
  have henter := File.enter_eq "open_native_type" (stored.halfway s).file
  by_cases hfault : "open_native_type" ∈ s.file.faults
  · rw [if_pos hfault]
    have hfails := henter.trans (if_pos hfault)
    rw [bind_of_error hfails]
    rfl
  · rw [if_neg hfault]
    have hanswered := henter.trans (if_neg hfault)
    rw [bind_of_ok hanswered, get_bind, hcounted]
    rfl

/-- **A transaction that opens** is its body between `begun` and `ended`. -/
theorem withHandles_eq {s : Store} (h : Opens s) (body : HandleId → HandleId → Action Store α) :
    stored.source.withHandles body s =
      seenAs (stored.ended s) (body ⟨s.file.lent⟩ ⟨s.file.lent + 1⟩ (stored.begun s)) := by
  have hattr := (stored.openAttribute_eq s).trans (if_neg h.1)
  have htype := (stored.openNativeType_eq s).trans (if_neg h.2)
  have hvalid : (⟨s.file.lent⟩ : HandleId).isValid = true := by simp [HandleId.isValid]
  have hnext : (⟨s.file.lent + 1⟩ : HandleId).isValid = true := by
    simp only [HandleId.isValid, decide_eq_true_eq]
    omega
  rw [AttributeSource.withHandles, withHandle, acquire_of_ok hattr hvalid]
  dsimp only
  rw [withHandle, acquire_of_ok htype hnext]
  dsimp only
  cases body ⟨s.file.lent⟩ ⟨s.file.lent + 1⟩ (stored.begun s) <;> rfl

/-- **One that does not open** fails for want of a handle, before its body. -/
theorem withHandles_of_fault {s : Store} (h : ¬Opens s)
    (body : HandleId → HandleId → Action Store α) :
    ∃ kind reason t, stored.source.withHandles body s = .error (.handleOpen kind reason) t := by
  have hopen := stored.openAttribute_eq s
  rw [AttributeSource.withHandles, withHandle]
  by_cases hattr : "open_attribute" ∈ s.file.faults
  · rw [acquire_of_error (hopen.trans (if_pos hattr))]
    exact ⟨_, _, _, rfl⟩
  · have htype : "open_native_type" ∈ s.file.faults :=
      Decidable.of_not_not fun htype => h ⟨hattr, htype⟩
    have hvalid : (⟨s.file.lent⟩ : HandleId).isValid = true := by simp [HandleId.isValid]
    have hnative := (stored.openNativeType_eq s).trans (if_pos htype)
    rw [acquire_of_ok (hopen.trans (if_neg hattr)) hvalid]
    dsimp only
    rw [withHandle, acquire_of_error hnative]
    exact ⟨_, _, _, rfl⟩

/-! ## Between the handles -/

theorem content_ended (s t : Store) : (stored.ended s t).content = t.content :=
  (steady_content.keeps_release stored .attribute _ _).trans
    (steady_content.keeps_release stored .datatype _ t)

/-- An open handle that is taken back. -/
theorem stateAfter_release {s : Store} {kind : HandleKind} {id : HandleId}
    (h : s.file.checkHandle kind id = .ok ()) :
    stateAfter (stored.source.release kind id) s =
      { s with file := { s.file with handles := s.file.handles.filter (·.1 ≠ id) } } := by
  change stateAfter (onFile (File.release kind id)) s = _
  unfold stateAfter onFile Action.onPart File.release
  rw [h]

/-- Both handles are open once a transaction has begun. -/
theorem inTransaction_begun {s : Store} (h : s.file.faults = []) :
    InTransaction (stored.begun s) ⟨s.file.lent⟩ ⟨s.file.lent + 1⟩ := by
  have hne : (⟨s.file.lent⟩ : HandleId) ≠ ⟨(stored.halfway s).file.lent⟩ := by
    rw [ne_eq, HandleId.mk.injEq, halfway, File.lending]
    dsimp only
    omega
  refine ⟨h, ?_, (stored.halfway s).file.checkHandle_lending .nativeType⟩
  exact (File.checkHandle_lending_of_ne hne _ _).trans
    (s.file.checkHandle_lending (.attribute stored.space.rank))

/-- The store after a transaction that asked for its handles and no more: two
questions were counted, and two numbers were used. -/
def visited (s : Store) : Store :=
  { s with
    file :=
      { s.file with
        calls := s.file.calls + 2
        lent := s.file.lent + 2
        handles :=
          (s.file.handles.filter (·.1 ≠ ⟨s.file.lent + 1⟩)).filter (·.1 ≠ ⟨s.file.lent⟩) } }

theorem ended_begun (s : Store) : stored.ended s (stored.begun s) = visited s := by
  have htype : (stored.begun s).file.checkHandle .datatype ⟨s.file.lent + 1⟩ = .ok () :=
    (stored.halfway s).file.checkHandle_lending .nativeType
  have hne : (⟨s.file.lent⟩ : HandleId) ≠ ⟨s.file.lent + 1⟩ := by
    rw [ne_eq, HandleId.mk.injEq]
    omega
  rw [ended, stateAfter_release stored htype, stateAfter_release]
  · simp [begun, halfway, File.lending, visited, hne]
  · simp [begun, halfway, File.lending, File.checkHandle, File.handle?, hne]
    rfl

end StoredAttribute

end Memory

end TypedAttr
