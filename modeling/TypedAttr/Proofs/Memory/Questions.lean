import TypedAttr.Proofs.Memory.Store
import TypedAttr.Proofs.Reference.Leaves
/-!
# Questions to a file

What each kind of question does to a file, as one equation: it is counted,
and it fails if it is made to, else what is found in the file decides. A
handle that is asked for is lent under the next number. So what does not show the handles and
the count of questions is not changed by being asked (`Blind.keep_lookups`).
-/

namespace TypedAttr

namespace Memory

namespace File

variable {α : Type}

/-- The file with one more question counted. -/
def counted (file : File) : File := { file with calls := file.calls + 1 }

theorem enter_eq (name : String) (file : File) :
    enter name file =
      if name ∈ file.faults then .error (.resolution s!"{name} failed") file.counted
      else .ok () file.counted :=
  rfl

theorem answer_eq (name : String) (lookup : File → Except Error α) (file : File) :
    answer name lookup file =
      if name ∈ file.faults then .error (.resolution s!"{name} failed") file.counted
      else
        match lookup file.counted with
        | .ok a => .ok a file.counted
        | .error e => .error e file.counted := by
  have henter := enter_eq name file
  by_cases hname : name ∈ file.faults
  · rw [if_pos hname] at henter ⊢
    exact bind_of_error henter _
  · rw [if_neg hname] at henter ⊢
    rw [answer, bind_of_ok henter, get_bind]
    cases lookup file.counted <;> rfl

theorem answerHandle_eq (name : String) (lookup : File → Except Error OpenHandle) (file : File) :
    answerHandle name lookup file =
      if name ∈ file.faults then .error (.resolution s!"{name} failed") file.counted
      else
        match lookup file.counted with
        | .ok handle => .ok ⟨file.lent⟩ (file.lending handle)
        | .error e => .error e file.counted := by
  have hanswer := answer_eq name lookup file
  by_cases hname : name ∈ file.faults
  · rw [if_pos hname] at hanswer ⊢
    exact bind_of_error hanswer _
  · rw [if_neg hname] at hanswer ⊢
    cases hfound : lookup file.counted with
    | ok handle =>
      rw [hfound] at hanswer
      exact bind_of_ok hanswer _
    | error e =>
      rw [hfound] at hanswer
      exact bind_of_error hanswer _

/-- The number that is lent is of the handle, whatever was out before. -/
theorem handle?_lending (file : File) (handle : OpenHandle) :
    (file.lending handle).handle? ⟨file.lent⟩ = some handle := by
  simp [handle?, lending]

/-! ## What no question changes -/

/-- A view that shows neither the handles nor the count of questions. -/
def Blind {β : Type} (view : File → β) : Prop :=
  ∀ (file : File) (handles : List (HandleId × OpenHandle)) (lent calls : Nat),
    view { file with handles := handles, lent := lent, calls := calls } = view file

namespace Blind

variable {β : Type} {view : File → β} (h : Blind view)
include h

theorem keeps_enter (name : String) : Keeps view (enter name) := by
  intro file
  rw [stateAfter, enter_eq]
  by_cases hname : name ∈ file.faults
  · rw [if_pos hname]
    exact h file _ _ _
  · rw [if_neg hname]
    exact h file _ _ _

theorem keeps_lend (handle : OpenHandle) : Keeps view (lend handle) := fun file => h file _ _ _

theorem keeps_release (kind : HandleKind) (id : HandleId) : Keeps view (release kind id) := by
  intro file
  rw [stateAfter, release]
  cases file.checkHandle kind id with
  | ok _ => exact h file _ _ _
  | error e => rfl

theorem keeps_answer (name : String) (lookup : File → Except Error α) :
    Keeps view (answer name lookup) :=
  (h.keeps_enter name).bind fun _ => Keeps.get.bind fun _ => .ofExcept _

theorem keeps_answerHandle (name : String) (lookup : File → Except Error OpenHandle) :
    Keeps view (answerHandle name lookup) :=
  (h.keeps_answer name lookup).bind fun handle => h.keeps_lend handle

/-- **No question changes what such a view shows.** -/
theorem keep_lookups : lookups.Keep view where
  release := h.keeps_release
  kind _ := h.keeps_answer _ _
  fileName _ := h.keeps_answer _ _
  objectName _ := h.keeps_answer _ _
  attributeName _ := h.keeps_answer _ _
  objectType _ := h.keeps_answer _ _
  openObject _ := h.keeps_answerHandle _ _
  openRegion _ := h.keeps_answerHandle _ _
  openAttribute _ := h.keeps_answerHandle _ _
  attributeSpace _ := h.keeps_answerHandle _ _
  spaceRank _ := h.keeps_answer _ _
  selectionType _ := h.keeps_answer _ _
  selectionPoints _ := h.keeps_answer _ _
  selectionBlocks _ := h.keeps_answer _ _

end Blind

end File

end Memory

end TypedAttr
