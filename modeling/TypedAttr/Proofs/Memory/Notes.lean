import TypedAttr.Proofs.Backend.Keeps
import TypedAttr.Proofs.Memory.Refusals
import TypedAttr.Proofs.Reference.Leaves
/-!
# Notes of questions

An observer notes every question to a file: the handles that it was asked
with, the handle that it lent or took back, and the error it failed with.
Notes are `Balanced` between two files if the handles that are out are the
same, the numbers that were lent are the next ones, every handle that was lent
was taken back, and every question that was counted is noted. A computation is
`Orderly` if its run under the observer is its run without one, and the notes
are balanced. Orderly computations are put together as the program does it,
and so is one that holds a handle (`Orderly.withHandle`).
-/

namespace TypedAttr

namespace Memory

/-! ## Notes -/

/-- What is noted of one question. -/
structure Note where
  /-- The file that was asked. -/
  file : File
  /-- The handles that it was asked with, and the kinds that it is for. -/
  given : List (HandleId × List HandleKind)
  lent : Option HeldHandle := none
  returned : Option HeldHandle := none
  failure : Option Error := none

namespace Note

/-- **A sound question** was asked with open handles of its kinds, and no
handle was refused. -/
structure Sound (note : Note) : Prop where
  given : ∀ pair ∈ note.given, ∃ kind ∈ pair.2, note.file.checkHandle kind pair.1 = .ok ()
  failure : ∀ e ∈ note.failure, ¬e.OfHandle

/-- The handles that were lent, in order. -/
def loans (notes : List Note) : List HeldHandle := notes.filterMap Note.lent

/-- The handles that were taken back, in order. -/
def returns (notes : List Note) : List HeldHandle := notes.filterMap Note.returned

/-- The notes of what a file counts as questions: to take a handle back is
none. -/
def questions (notes : List Note) : List Note := notes.filter (·.returned.isNone)

end Note

section Watch

variable {σ α : Type} (file : σ → File)

/-- An action that is noted as a question with some handles, with what there
is to be marked if it is answered. -/
def watch (given : List (HandleId × List HandleKind)) (mark : α → File → Note → Note)
    (action : Action σ α) : Action (σ × List Note) α := fun (s, notes) =>
  let note : Note := { file := file s, given := given }
  match action s with
  | .ok a t => .ok a (t, notes ++ [mark a (file t) note])
  | .error e t => .error e (t, notes ++ [{ note with failure := some e }])

/-- A question that lends nothing. -/
def watchQuestion (given : List (HandleId × List HandleKind)) (action : Action σ α) :
    Action (σ × List Note) α :=
  watch file given (fun _ _ note => note) action

/-- A question that lends a handle, of the kind that the file has it under. -/
def watchLoan (given : List (HandleId × List HandleKind)) (action : Action σ HandleId) :
    Action (σ × List Note) HandleId :=
  watch file given
    (fun id after note =>
      { note with lent := (after.handle? id).map fun handle => ⟨handle.kind, id⟩ })
    action

/-- Taking a handle back. -/
def watchReturn (release : HandleKind → HandleId → Action σ Unit) (kind : HandleKind)
    (id : HandleId) : Action (σ × List Note) Unit :=
  watch file [(id, [kind])] (fun _ _ note => { note with returned := some ⟨kind, id⟩ })
    (release kind id)

end Watch

/-! ## Balance -/

/-- A file after so many questions, none of which lent a handle or took one
back. -/
structure Asked (asked : Nat) (a b : File) : Prop where
  handles : b.handles = a.handles
  lent : b.lent = a.lent
  calls : b.calls = a.calls + asked

theorem Asked.refl (a : File) : Asked 0 a a := ⟨rfl, rfl, rfl⟩

theorem Asked.trans {asked more : Nat} {a b c : File} (h : Asked asked a b)
    (hnext : Asked more b c) : Asked (asked + more) a c where
  handles := hnext.handles.trans h.handles
  lent := hnext.lent.trans h.lent
  calls := by rw [hnext.calls, h.calls, Nat.add_assoc]

/-- So many handles, numbered one after the other. -/
def numbered (start count : Nat) : List HandleId :=
  (List.range' start count).map fun (number : Nat) => ⟨number⟩

/-- **Balanced notes** of what was asked between two files. -/
structure Balanced (a : File) (notes : List Note) (b : File) : Prop where
  /-- The same handles are out. -/
  handles : b.handles = a.handles
  /-- Those that were lent have the next numbers. -/
  lent : ∃ count, b.lent = a.lent + count ∧
    (Note.loans notes).map (·.id) = numbered a.lent count
  /-- They were taken back, each once and with its kind. -/
  returned : (Note.returns notes).Perm (Note.loans notes)
  /-- Every question that was counted is noted. -/
  calls : b.calls = a.calls + (Note.questions notes).length
  sound : ∀ note ∈ notes, note.Sound

namespace Balanced

variable {a b c : File} {notes others : List Note} {note : Note}

/-- Without a question, no note is needed. -/
theorem of_asked (h : Asked 0 a b) : Balanced a [] b where
  handles := h.handles
  lent := ⟨0, h.lent, rfl⟩
  returned := .nil
  calls := h.calls
  sound _ h := by cases h

theorem refl (a : File) : Balanced a [] a := of_asked (.refl a)

theorem trans (h : Balanced a notes b) (hnext : Balanced b others c) :
    Balanced a (notes ++ others) c where
  handles := hnext.handles.trans h.handles
  lent := by
    obtain ⟨count, hb, hids⟩ := h.lent
    obtain ⟨count', hc, hids'⟩ := hnext.lent
    refine ⟨count + count', by omega, ?_⟩
    rw [Note.loans, List.filterMap_append, List.map_append, ← Note.loans, ← Note.loans, hids, hids',
      hb, numbered, numbered, ← List.map_append, List.range'_append_1, numbered]
  returned := by
    rw [Note.loans, Note.returns, List.filterMap_append, List.filterMap_append]
    exact h.returned.append hnext.returned
  calls := by
    rw [hnext.calls, h.calls, Note.questions, Note.questions, Note.questions, List.filter_append,
      List.length_append, Nat.add_assoc]
  sound note hmem := by
    rcases List.mem_append.1 hmem with hmem | hmem
    · exact h.sound note hmem
    · exact hnext.sound note hmem

/-- A question that lends nothing and takes nothing back. -/
theorem of_question (h : Asked 1 a b) (hsound : note.Sound) (hloan : note.lent = none)
    (hreturn : note.returned = none) : Balanced a [note] b where
  handles := h.handles
  lent := ⟨0, h.lent, by simp [Note.loans, hloan, numbered]⟩
  returned := by simp [Note.loans, Note.returns, hloan, hreturn]
  calls := by simp [Note.questions, hreturn, h.calls]
  sound other hmem := List.mem_singleton.1 hmem ▸ hsound

end Balanced

/-! ## Handles that are held -/

/-- A file with numbers left, of which some handles are held. -/
structure Holding (held : List HeldHandle) (file : File) : Prop where
  below : ∀ entry ∈ file.handles, entry.1.number < file.lent
  opened : ∀ handle ∈ held, file.checkHandle handle.kind handle.id = .ok ()

theorem checkHandle_congr {a b : File} (h : b.handles = a.handles) (kind : HandleKind)
    (id : HandleId) : b.checkHandle kind id = a.checkHandle kind id := by
  simp only [File.checkHandle, File.handle?, h]

namespace Holding

variable {held more : List HeldHandle} {a b : File} {notes : List Note}

/-- Only the handles and the count of those matter. -/
theorem of_handles (h : Holding held a) (hhandles : b.handles = a.handles)
    (hlent : a.lent ≤ b.lent) : Holding held b where
  below entry hmem := by
    have := h.below entry (hhandles ▸ hmem)
    omega
  opened handle hmem := (checkHandle_congr hhandles _ _).trans (h.opened handle hmem)

theorem of_balanced (h : Holding held a) (hbalanced : Balanced a notes b) : Holding held b := by
  obtain ⟨count, hlent, -⟩ := hbalanced.lent
  exact h.of_handles hbalanced.handles (by omega)

theorem mono (h : Holding more a) (hsubset : held ⊆ more) : Holding held a :=
  ⟨h.below, fun handle hmem => h.opened handle (hsubset hmem)⟩

/-- An open handle was lent. -/
theorem number_lt (h : Holding held a) {kind : HandleKind} {id : HandleId}
    (hopened : a.checkHandle kind id = .ok ()) : id.number < a.lent := by
  rw [File.checkHandle, File.handle?] at hopened
  cases hfind : a.handles.find? (·.1 = id) with
  | none =>
    rw [hfind] at hopened
    cases hopened
  | some entry =>
    obtain rfl : entry.1 = id := by simpa using List.find?_some hfind
    exact h.below entry (List.mem_of_find?_eq_some hfind)

end Holding

/-- Handles that are held, and are of kinds that are asked for. -/
def Covers (held : List HeldHandle) (given : List (HandleId × List HandleKind)) : Prop :=
  ∀ pair ∈ given, ∃ handle ∈ held, handle.id = pair.1 ∧ handle.kind ∈ pair.2

theorem Covers.sound {held : List HeldHandle} {given : List (HandleId × List HandleKind)}
    (h : Covers held given) {file : File} (hfile : Holding held file) :
    ∀ pair ∈ given, ∃ kind ∈ pair.2, file.checkHandle kind pair.1 = .ok () := by
  intro pair hmem
  obtain ⟨handle, hheld, hid, hkind⟩ := h pair hmem
  exact ⟨handle.kind, hkind, hid ▸ hfile.opened handle hheld⟩

/-! ## What questions do -/

section Questions

variable {σ α γ : Type} {file : σ → File} {held more : List HeldHandle}

/-- So many questions that change no handles and refuse none that is held. -/
def Quiet (file : σ → File) (asked : Nat) (held : List HeldHandle) (action : Action σ α) : Prop :=
  ∀ s, Holding held (file s) → Asked asked (file s) (file (stateAfter action s)) ∧
    ∀ e t, action s = .error e t → ¬e.OfHandle

/-- A new handle of a kind was lent, after so many questions. -/
structure Lent (asked : Nat) (kind : HandleKind) (id : HandleId) (a b : File) : Prop where
  next : id = ⟨a.lent⟩
  handles : ∃ handle : OpenHandle, handle.kind = kind ∧ b.handles = (id, handle) :: a.handles
  lent : b.lent = a.lent + 1
  calls : b.calls = a.calls + asked

/-- So many questions that lend a new handle of a kind, or else are quiet. -/
structure Lends (file : σ → File) (asked : Nat) (held : List HeldHandle) (kind : HandleKind)
    (take : Action σ HandleId) : Prop where
  ok ⦃s id t⦄ : Holding held (file s) → take s = .ok id t → Lent asked kind id (file s) (file t)
  error ⦃s e t⦄ : Holding held (file s) → take s = .error e t →
    Asked asked (file s) (file t) ∧ ¬e.OfHandle

/-- A way to give handles back: what is out of the kind is out no more. -/
def TakesBack (file : σ → File) (release : HandleKind → HandleId → Action σ Unit) : Prop :=
  ∀ kind id s, (file s).checkHandle kind id = .ok () → ∃ t, release kind id s = .ok () t ∧
    (file t).handles = (file s).handles.filter (·.1 ≠ id) ∧ (file t).lent = (file s).lent ∧
    (file t).calls = (file s).calls

variable {asked : Nat}

theorem Quiet.mono {action : Action σ α} (h : Quiet file asked held action)
    (hsubset : held ⊆ more) : Quiet file asked more action := fun s hs => h s (hs.mono hsubset)

theorem Lends.mono {kind : HandleKind} {take : Action σ HandleId}
    (h : Lends file asked held kind take) (hsubset : held ⊆ more) :
    Lends file asked more kind take where
  ok _ _ _ hs htake := h.ok (hs.mono hsubset) htake
  error _ _ _ hs htake := h.error (hs.mono hsubset) htake

namespace Quiet

theorem get : Quiet file 0 held (MonadState.get : Action σ σ) := fun _ _ =>
  ⟨.refl _, fun e t herror => by cases herror⟩

theorem throw {e : Error} (h : ¬e.OfHandle) :
    Quiet file 0 held (MonadExcept.throw e : Action σ α) := by
  intro s _
  refine ⟨.refl _, ?_⟩
  rintro _ _ ⟨⟩
  exact h

/-- After quiet questions, the same handles are held. -/
theorem asked_of_ok {action : Action σ α} (h : Quiet file asked held action) {s t : σ} {a : α}
    (hs : Holding held (file s)) (hok : action s = .ok a t) :
    Asked asked (file s) (file t) ∧ Holding held (file t) := by
  have hasked := (h s hs).1
  rw [stateAfter, hok] at hasked
  exact ⟨hasked, hs.of_handles hasked.handles (Nat.le_of_eq hasked.lent.symm)⟩

theorem asked_of_error {action : Action σ α} (h : Quiet file asked held action) {s t : σ}
    {e : Error} (hs : Holding held (file s)) (herror : action s = .error e t) :
    Asked asked (file s) (file t) ∧ ¬e.OfHandle := by
  obtain ⟨hasked, hcalm⟩ := h s hs
  rw [stateAfter, herror] at hasked
  exact ⟨hasked, hcalm e t herror⟩

/-- Questions, and then something else that asks nothing more. -/
theorem bind {action : Action σ α} {next : α → Action σ γ} (h : Quiet file asked held action)
    (hnext : ∀ a, Quiet file 0 held (next a)) : Quiet file asked held (action >>= next) := by
  intro s hs
  cases haction : action s with
  | error e t =>
    obtain ⟨hasked, hcalm⟩ := h.asked_of_error hs haction
    rw [stateAfter, bind_of_error haction]
    refine ⟨hasked, ?_⟩
    rintro e t ⟨⟩
    exact hcalm
  | ok a t =>
    obtain ⟨hasked, ht⟩ := h.asked_of_ok hs haction
    obtain ⟨hstill, hcalm⟩ := hnext a t ht
    rw [stateAfter] at hstill
    rw [stateAfter, bind_of_ok haction]
    exact ⟨hasked.trans hstill, hcalm⟩

/-- Questions, and then a handle that is lent without another. -/
theorem lends {kind : HandleKind} {action : Action σ α} {next : α → Action σ HandleId}
    (h : Quiet file asked held action) (hnext : ∀ a, Lends file 0 held kind (next a)) :
    Lends file asked held kind (action >>= next) := by
  constructor
  · intro s taken t hs hok
    obtain ⟨a, u, haction, htake⟩ := bind_ok hok
    obtain ⟨hasked, hu⟩ := h.asked_of_ok hs haction
    obtain ⟨hid, ⟨handle, hkind, hnew⟩, hlent, hcalls⟩ := (hnext a).ok hu htake
    exact ⟨hasked.lent ▸ hid, ⟨handle, hkind, hasked.handles ▸ hnew⟩, hasked.lent ▸ hlent,
      hcalls.trans hasked.calls⟩
  · intro s e t hs herror
    cases haction : action s with
    | error e' u =>
      rw [bind_of_error haction] at herror
      cases herror
      exact h.asked_of_error hs haction
    | ok a u =>
      obtain ⟨hasked, hu⟩ := h.asked_of_ok hs haction
      rw [bind_of_ok haction] at herror
      obtain ⟨hstill, hcalm⟩ := (hnext a).error hu herror
      exact ⟨hasked.trans hstill, hcalm⟩

end Quiet

namespace Lent

variable {kind : HandleKind} {id : HandleId} {a b : File}

theorem handle? (h : Lent asked kind id a b) : (b.handle? id).map OpenHandle.kind = some kind := by
  obtain ⟨handle, hkind, hhandles⟩ := h.handles
  simp [File.handle?, hhandles, hkind]

theorem checkHandle (h : Lent asked kind id a b) : b.checkHandle kind id = .ok () := by
  obtain ⟨handle, hkind, hhandles⟩ := h.handles
  simp [File.checkHandle, File.handle?, hhandles, hkind]

/-- The new handle is held beside the others, since its number is new. -/
theorem holding (h : Lent asked kind id a b) (ha : Holding held a) :
    Holding (⟨kind, id⟩ :: held) b := by
  obtain ⟨handle, -, hhandles⟩ := h.handles
  have hnext := h.next
  have hlent := h.lent
  constructor
  · intro entry hmem
    rw [hhandles] at hmem
    rcases List.mem_cons.1 hmem with rfl | hmem
    · simp only [hnext, hlent]
      omega
    · have := ha.below entry hmem
      omega
  · intro other hmem
    rcases List.mem_cons.1 hmem with rfl | hmem
    · exact h.checkHandle
    · have hopened := ha.opened other hmem
      have hne : id ≠ other.id := by
        rintro rfl
        have hbelow := ha.number_lt hopened
        rw [hnext] at hbelow
        exact Int.lt_irrefl _ hbelow
      rw [← hopened]
      simp [File.checkHandle, File.handle?, hhandles, hne]

/-- Without the new handle, what is out is what was out before. -/
theorem filter_handles (h : Lent asked kind id a b) (ha : Holding held a) :
    b.handles.filter (·.1 ≠ id) = a.handles := by
  obtain ⟨handle, -, hhandles⟩ := h.handles
  rw [hhandles, List.filter_cons_of_neg (by simp), List.filter_eq_self]
  intro entry hmem
  have hbelow := ha.below entry hmem
  refine decide_eq_true ?_
  rintro rfl
  rw [h.next] at hbelow
  exact Int.lt_irrefl _ hbelow

end Lent

end Questions

/-! ## Orderly computations -/

section Orderly

variable {σ τ α γ : Type}

/-- A result, with the state seen in another way. -/
def seenAs (f : σ → τ) : EStateM.Result Error σ α → EStateM.Result Error τ α
  | .ok a s => .ok a (f s)
  | .error e s => .error e (f s)

/-- Where a state has its file, and how notes are kept beside it. -/
structure Desk (σ τ : Type) where
  file : σ → File
  join : σ → List Note → τ

/-- A state with the notes after it. -/
def Desk.ofFile (file : σ → File) : Desk σ (σ × List Note) := ⟨file, Prod.mk⟩

/-- **An orderly action**, with some handles held: under the observer it does
the same, and the notes are balanced. -/
def Orderly (desk : Desk σ τ) (held : List HeldHandle) (plain : Action σ α)
    (watched : Action τ α) : Prop :=
  ∀ s notes, Holding held (desk.file s) → ∃ more,
    Balanced (desk.file s) more (desk.file (stateAfter plain s)) ∧
      watched (desk.join s notes) = seenAs (desk.join · (notes ++ more)) (plain s)

/-- An orderly computation that cannot fail. -/
def OrderlyM (file : σ → File) (held : List HeldHandle) (plain : StateM σ α)
    (watched : StateM (σ × List Note) α) : Prop :=
  ∀ s notes, Holding held (file s) → ∃ more,
    Balanced (file s) more (file (plain.run s).2) ∧
      watched.run (s, notes) = ((plain.run s).1, ((plain.run s).2, notes ++ more))

namespace Orderly

variable {desk : Desk σ τ} {held : List HeldHandle}

theorem pure (a : α) : Orderly desk held (Pure.pure a) (Pure.pure a) := fun s notes _ =>
  ⟨[], .refl _, by rw [List.append_nil]; rfl⟩

theorem throw (e : Error) : Orderly desk held (MonadExcept.throw e : Action σ α)
    (MonadExcept.throw e) := fun s notes _ =>
  ⟨[], .refl _, by rw [List.append_nil]; rfl⟩

theorem ofExcept (result : Except Error α) :
    Orderly desk held (Action.ofExcept result) (Action.ofExcept result) := by
  cases result with
  | ok a => exact pure a
  | error e => exact throw e

theorem bind {plain : Action σ α} {watched : Action τ α} {next : α → Action σ γ}
    {next' : α → Action τ γ} (h : Orderly desk held plain watched)
    (hnext : ∀ a, Orderly desk held (next a) (next' a)) :
    Orderly desk held (plain >>= next) (watched >>= next') := by
  intro s notes hs
  obtain ⟨more, hbalanced, hrun⟩ := h s notes hs
  have hafter := hs.of_balanced hbalanced
  rw [stateAfter] at hbalanced hafter ⊢
  cases hplain : plain s with
  | ok a t =>
    rw [hplain] at hbalanced hafter hrun
    obtain ⟨more', hbalanced', hrun'⟩ := hnext a t (notes ++ more) hafter
    rw [bind_of_ok hplain, bind_of_ok hrun]
    refine ⟨more ++ more', hbalanced.trans hbalanced', ?_⟩
    rw [hrun', List.append_assoc]
  | error e t =>
    rw [hplain] at hbalanced hrun
    rw [bind_of_error hplain, bind_of_error hrun]
    exact ⟨more, hbalanced, rfl⟩

theorem mapM {f : α → Action σ γ} {f' : α → Action τ γ}
    (h : ∀ a, Orderly desk held (f a) (f' a)) (items : List α) :
    Orderly desk held (items.mapM f) (items.mapM f') := by
  induction items with
  | nil => exact pure []
  | cons a rest ih =>
    rw [List.mapM_cons, List.mapM_cons]
    exact (h a).bind fun c => ih.bind fun cs => pure (c :: cs)

end Orderly

namespace OrderlyM

variable {file : σ → File} {held : List HeldHandle}

theorem pure (a : α) : OrderlyM file held (Pure.pure a) (Pure.pure a) := fun s notes _ =>
  ⟨[], .refl _, by rw [List.append_nil]; rfl⟩

theorem bind {plain : StateM σ α} {watched : StateM (σ × List Note) α}
    {next : α → StateM σ γ} {next' : α → StateM (σ × List Note) γ}
    (h : OrderlyM file held plain watched) (hnext : ∀ a, OrderlyM file held (next a) (next' a)) :
    OrderlyM file held (plain >>= next) (watched >>= next') := by
  intro s notes hs
  obtain ⟨more, hbalanced, hrun⟩ := h s notes hs
  obtain ⟨more', hbalanced', hrun'⟩ :=
    hnext (plain.run s).1 (plain.run s).2 (notes ++ more) (hs.of_balanced hbalanced)
  refine ⟨more ++ more', hbalanced.trans hbalanced', ?_⟩
  rw [StateT.run_bind, hrun]
  exact hrun'.trans (by rw [List.append_assoc]; rfl)

/-- What an orderly action yields. -/
theorem attempt {plain : Action σ α} {watched : Action (σ × List Note) α}
    (h : Orderly (.ofFile file) held plain watched) :
    OrderlyM file held (attempt plain) (attempt watched) := by
  intro s notes hs
  obtain ⟨more, hbalanced, hrun⟩ := h s notes hs
  refine ⟨more, ?_, ?_⟩
  · rw [stateAfter] at hbalanced
    rw [StateT.run, TypedAttr.attempt]
    cases hplain : plain s with
    | ok a t =>
      rw [hplain] at hbalanced
      exact hbalanced
    | error e t =>
      rw [hplain] at hbalanced
      exact hbalanced
  · have hrun' : watched (s, notes) = _ := hrun
    rw [StateT.run, StateT.run, TypedAttr.attempt, TypedAttr.attempt, hrun']
    cases plain s <;> rfl

end OrderlyM

end Orderly

/-! ## Questions under the observer -/

section Watched

variable {σ α : Type} {file : σ → File} {held : List HeldHandle}
variable {given : List (HandleId × List HandleKind)}

/-- A quiet question leaves one sound note. -/
theorem Quiet.orderly {action : Action σ α} (h : Quiet file 1 held action)
    (hgiven : Covers held given) :
    Orderly (.ofFile file) held action (watchQuestion file given action) := by
  intro s notes hs
  have hsound := hgiven.sound hs
  change ∃ more, Balanced (file s) more (file (stateAfter action s)) ∧
    watch file given (fun _ _ note => note) action (s, notes) = _
  rw [stateAfter, watch]
  cases haction : action s with
  | ok a t =>
    have hasked := (h.asked_of_ok hs haction).1
    exact ⟨_, .of_question hasked ⟨hsound, fun e he => by cases he⟩ rfl rfl, rfl⟩
  | error e t =>
    obtain ⟨hasked, hcalm⟩ := h.asked_of_error hs haction
    refine ⟨_, .of_question hasked ⟨hsound, ?_⟩ rfl rfl, rfl⟩
    rintro _ ⟨⟩
    exact hcalm

variable {kind : HandleKind} {take : Action σ HandleId}
variable {release : HandleKind → HandleId → Action σ Unit}

/-- What comes of taking a handle, and the note of it. -/
inductive Taken (file : σ → File) (kind : HandleKind) (s : σ) (note : Note) :
    EStateM.Result Error σ HandleId → Prop
  | ok {id : HandleId} {t : σ} (hlent : Lent 1 kind id (file s) (file t))
    (hloan : note.lent = some ⟨kind, id⟩) (hreturn : note.returned = none) (hsound : note.Sound) :
    Taken file kind s note (.ok id t)
  | error {e : Error} {t : σ} (hbalanced : Balanced (file s) [note] (file t)) :
    Taken file kind s note (.error e t)

theorem Lends.taken (h : Lends file 1 held kind take) (hgiven : Covers held given) {s : σ}
    (hs : Holding held (file s)) (notes : List Note) : ∃ note,
      Taken file kind s note (acquire kind take s) ∧
        acquire kind (watchLoan file given take) (s, notes) =
          seenAs (·, notes ++ [note]) (acquire kind take s) := by
  have hsound := hgiven.sound hs
  rw [acquire, acquire, watchLoan, watch]
  cases htake : take s with
  | error e t =>
    obtain ⟨hasked, hcalm⟩ := h.error hs htake
    refine ⟨_, .error (.of_question hasked ⟨hsound, ?_⟩ rfl rfl), rfl⟩
    rintro _ ⟨⟩
    exact hcalm
  | ok id t =>
    have hlent := h.ok hs htake
    have hvalid : id.isValid = true := by
      rw [hlent.next]
      simp [HandleId.isValid]
    dsimp only
    rw [if_pos hvalid, if_pos hvalid]
    refine ⟨_, .ok hlent ?_ rfl ⟨hsound, fun e he => by cases he⟩, rfl⟩
    obtain ⟨handle, hfound, hkind⟩ := Option.map_eq_some_iff.1 hlent.handle?
    dsimp only
    rw [hfound, Option.map_some, hkind]

/-- A handle that was lent and is given back after a balanced while. -/
theorem TakesBack.balanced (h : TakesBack file release) {s t u : σ} {id : HandleId} {note : Note}
    {more : List Note} (hs : Holding held (file s)) (hlent : Lent 1 kind id (file s) (file t))
    (hloan : note.lent = some ⟨kind, id⟩) (hreturn : note.returned = none) (hsound : note.Sound)
    (hmore : Balanced (file t) more (file u)) (notes : List Note) : ∃ last,
      Balanced (file s) (note :: more ++ [last]) (file (stateAfter (release kind id) u)) ∧
        stateAfter (watchReturn file release kind id) (u, notes) =
          (stateAfter (release kind id) u, notes ++ [last]) := by
  have hopened : (file u).checkHandle kind id = .ok () :=
    (checkHandle_congr hmore.handles kind id).trans hlent.checkHandle
  obtain ⟨v, hrelease, hhandles, hcount, hcalls⟩ := h kind id u hopened
  obtain ⟨count, hu, hids⟩ := hmore.lent
  let last : Note := { file := file u, given := [(id, [kind])], returned := some ⟨kind, id⟩ }
  have hafter : stateAfter (release kind id) u = v := by rw [stateAfter, hrelease]
  have hloans : Note.loans (note :: more ++ [last]) = ⟨kind, id⟩ :: Note.loans more := by
    simp [Note.loans, hloan, last]
  have hreturns : Note.returns (note :: more ++ [last]) = Note.returns more ++ [⟨kind, id⟩] := by
    simp [Note.returns, hreturn, last]
  have hquestions : Note.questions (note :: more ++ [last]) = note :: Note.questions more := by
    simp [Note.questions, hreturn, last]
  refine ⟨last, ⟨?_, ⟨count + 1, ?_, ?_⟩, ?_, ?_, ?_⟩, ?_⟩
  · rw [hafter, hhandles, hmore.handles, hlent.filter_handles hs]
  · rw [hafter, hcount, hu, hlent.lent]
    omega
  · rw [hloans, List.map_cons, hids, hlent.lent, hlent.next, numbered, numbered, List.range'_succ,
      List.map_cons]
  · rw [hloans, hreturns]
    exact (hmore.returned.append_right _).trans List.perm_append_comm
  · rw [hafter, hcalls, hmore.calls, hlent.calls, hquestions, List.length_cons]
    omega
  · intro other hmem
    rcases List.mem_append.1 hmem with hmem | hmem
    · rcases List.mem_cons.1 hmem with rfl | hmem
      · exact hsound
      · exact hmore.sound other hmem
    · rw [List.mem_singleton.1 hmem]
      refine ⟨fun pair hpair => ?_, fun e he => by cases he⟩
      rw [List.mem_singleton.1 hpair]
      exact ⟨kind, by simp, hopened⟩
  · rw [hafter, stateAfter, watchReturn, watch, hrelease]

/-- **What holds a handle is orderly** if it is so while the handle is
held. -/
theorem Orderly.withHandle (hrelease : TakesBack file release)
    (htake : Lends file 1 held kind take) (hgiven : Covers held given)
    {body : HandleId → Action σ α} {body' : HandleId → Action (σ × List Note) α}
    (hbody : ∀ id, Orderly (.ofFile file) (⟨kind, id⟩ :: held) (body id) (body' id)) :
    Orderly (.ofFile file) held (withHandle release kind take body)
      (withHandle (watchReturn file release) kind (watchLoan file given take) body') := by
  intro s notes hs
  obtain ⟨note, htaken, hrun⟩ := htake.taken hgiven hs notes
  change ∃ more, Balanced (file s) more (file (stateAfter _ s)) ∧
    TypedAttr.withHandle _ kind _ body' (s, notes) = _
  rw [stateAfter, TypedAttr.withHandle, TypedAttr.withHandle, hrun]
  cases hacquire : acquire kind take s with
  | error e t =>
    rw [hacquire] at htaken
    obtain - | ⟨hbalanced⟩ := htaken
    exact ⟨[note], hbalanced, rfl⟩
  | ok id t =>
    rw [hacquire] at htaken
    obtain ⟨hlent, hloan, hreturn, hsound⟩ := htaken
    obtain ⟨more, hmore, hinner⟩ := hbody id t (notes ++ [note]) (hlent.holding hs)
    obtain ⟨last, hbalanced, hlast⟩ := hrelease.balanced hs hlent hloan hreturn hsound hmore
      (notes ++ [note] ++ more)
    have hbody' : body' id (t, notes ++ [note]) = _ := hinner
    have hnotes : notes ++ [note] ++ more ++ [last] = notes ++ (note :: more ++ [last]) := by
      simp only [List.append_assoc, List.cons_append, List.nil_append]
    rw [hnotes] at hlast
    refine ⟨note :: more ++ [last], ?_⟩
    dsimp only [seenAs]
    rw [hbody']
    -- whether the body succeeds or fails, the handle is given back after it
    cases hplain : body id t with
    | ok a u =>
      have hafter : stateAfter (body id) t = u := by rw [stateAfter, hplain]
      rw [hafter] at hbalanced hlast
      exact ⟨hbalanced, congrArg (EStateM.Result.ok a) hlast⟩
    | error e u =>
      have hafter : stateAfter (body id) t = u := by rw [stateAfter, hplain]
      rw [hafter] at hbalanced hlast
      exact ⟨hbalanced, congrArg (EStateM.Result.error e) hlast⟩

/-- The same of a computation that goes on without the handle if it cannot be
had. -/
theorem OrderlyM.borrow {lookups : ReferenceLookups σ} {watched : ReferenceLookups (σ × List Note)}
    (hrelease : TakesBack file lookups.release)
    (hwatched : watched.release = watchReturn file lookups.release)
    (htake : Lends file 1 held kind take) (hgiven : Covers held given)
    {body : HandleId → Record → StateM σ Record}
    {body' : HandleId → Record → StateM (σ × List Note) Record} (record : Record)
    (hbody : ∀ id, OrderlyM file (⟨kind, id⟩ :: held) (body id record) (body' id record)) :
    OrderlyM file held (lookups.borrow kind take body record)
      (watched.borrow kind (watchLoan file given take) body' record) := by
  intro s notes hs
  obtain ⟨note, htaken, hrun⟩ := htake.taken hgiven hs notes
  cases hacquire : acquire kind take s with
  | error e t =>
    rw [hacquire] at htaken hrun
    obtain - | ⟨hbalanced⟩ := htaken
    rw [ReferenceLookups.run_borrow_of_error hacquire, ReferenceLookups.run_borrow_of_error hrun]
    exact ⟨[note], hbalanced, rfl⟩
  | ok id t =>
    rw [hacquire] at htaken hrun
    obtain ⟨hlent, hloan, hreturn, hsound⟩ := htaken
    obtain ⟨more, hmore, hinner⟩ := hbody id t (notes ++ [note]) (hlent.holding hs)
    obtain ⟨last, hbalanced, hlast⟩ := hrelease.balanced hs hlent hloan hreturn hsound hmore
      (notes ++ [note] ++ more)
    have hnotes : notes ++ [note] ++ more ++ [last] = notes ++ (note :: more ++ [last]) := by
      simp only [List.append_assoc, List.cons_append, List.nil_append]
    rw [hnotes] at hlast
    rw [ReferenceLookups.run_borrow_of_ok hacquire, ReferenceLookups.run_borrow_of_ok hrun, hinner]
    exact ⟨note :: more ++ [last], hbalanced, by rw [hwatched, hlast]⟩

end Watched

end Memory

end TypedAttr
