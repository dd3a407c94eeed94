import TypedAttr.Proofs.Attribute.Calls
import TypedAttr.Proofs.Memory.Transaction
import TypedAttr.Proofs.Reference.Leaves
/-!
# What an attribute keeps is never stale

The data that an attribute keeps are those in what is stored, read with the
options of now (`Fresh`). Every call preserves that: a call that changes the
options or what is stored forgets the data, and one that fails changes
neither. So a read gives what a read past the attribute would, whatever was
called before and whatever failed.
-/

namespace TypedAttr

namespace Memory

namespace StoredAttribute

variable {stored : StoredAttribute} {α : Type}

/-- **What is kept is what is stored**, as the attribute's options have it
read. -/
def Fresh (stored : StoredAttribute) (state : Attribute × Store) : Prop :=
  ∀ data ∈ state.1.data, stored.view state.1.options state.2.content = .ok data

/-- An attribute that keeps nothing keeps nothing stale. -/
theorem fresh_of_unread {state : Attribute × Store} (h : state.1.data = none) :
    stored.Fresh state := by
  intro data hdata
  rw [h] at hdata
  cases hdata

/-- Neither does one that is changed where the data do not depend on it. -/
theorem Fresh.of_eq {state state' : Attribute × Store} (h : stored.Fresh state)
    (hdata : state'.1.data = state.1.data) (hoptions : state'.1.options = state.1.options)
    (hcontent : state'.2.content = state.2.content) : stored.Fresh state' := by
  intro data hmem
  rw [hoptions, hcontent]
  exact h data (hdata ▸ hmem)

/-! ## Data -/

/-- A read gives the data in what is stored, and changes neither the options
nor the selection. -/
theorem view_of_cachedRead {state state' : Attribute × Store} {data : Data}
    (h : stored.Fresh state) (hread : Attribute.read stored.source state = .ok data state') :
    stored.view state.1.options state.2.content = .ok data ∧
      state'.1.selection = state.1.selection := by
  obtain ⟨attr, s⟩ := state
  rw [Attribute.read_eq] at hread
  cases hdata : attr.data with
  | some kept =>
    rw [hdata] at hread
    cases hread
    exact ⟨h data hdata, rfl⟩
  | none =>
    rw [hdata] at hread
    dsimp only at hread
    cases hsource : stored.source.read attr.options s with
    | ok found t =>
      rw [hsource] at hread
      cases hread
      exact ⟨view_of_read hsource, rfl⟩
    | error e t =>
      rw [hsource] at hread
      cases hread

theorem fresh_read : Preserves stored.Fresh (Attribute.read stored.source) := by
  rintro ⟨attr, s⟩ h
  unfold stateAfter
  rw [Attribute.read_eq]
  cases hdata : attr.data with
  | some data => exact h
  | none =>
    dsimp only
    cases hsource : stored.source.read attr.options s with
    | error e t => exact fresh_of_unread hdata
    | ok found t =>
      rintro data ⟨⟩
      -- what was stored is still stored
      have hcontent : t.content = s.content := steady_content.keeps_read.of_ok hsource
      exact (congrArg _ hcontent).trans (view_of_read hsource)

theorem fresh_readSelection : Preserves stored.Fresh (Attribute.readSelection stored.source) :=
  fresh_read.bind fun _ _ h => h

theorem fresh_write (data : Data) :
    Preserves stored.Fresh (Attribute.write stored.source data) := by
  rintro ⟨attr, s⟩ h
  unfold stateAfter
  rw [Attribute.write_eq]
  cases hwrite : stored.source.write attr.options data s with
  | ok _ t => exact fresh_of_unread rfl
  -- nothing was forgotten, and nothing else was stored
  | error e t => exact h.of_eq rfl rfl (keepsOnError_write hwrite)

/-! ## References -/

/-- Look-ups do not change what is stored. -/
theorem keep_content_lookups : lookups.Keep Store.content := by
  refine ReferenceLookups.keep_onPart ?_ File.lookups
  intro file store
  rfl

/-- So neither does any question about tokens. -/
theorem fresh_resolving {query : Resolver Store → Resolver.Query Store α}
    (hquery : ∀ flavor, Resolver.LeavesBackend Store.content (query ⟨lookups, flavor⟩)) :
    Preserves stored.Fresh (Attribute.resolving stored.source lookups query) := by
  rintro ⟨attr, s⟩ h
  unfold stateAfter Attribute.resolving
  cases stored.source.type.flavor? with
  | none => exact h
  -- only the records that are kept have changed
  | some flavor => exact h.of_eq rfl rfl (hquery flavor attr.records s)

theorem fresh_referenceTokens :
    Preserves stored.Fresh (Attribute.referenceTokens stored.source) := by
  refine fresh_read.bind fun data => ?_
  cases data.tokens? with
  | none => exact .throw _
  | some tokens => exact .pure tokens

theorem fresh_referenceRecords :
    Preserves stored.Fresh (Attribute.referenceRecords stored.source lookups) := by
  refine fresh_referenceTokens.bind fun tokens => fresh_resolving fun flavor => ?_
  exact (Resolver.leavesBackend_init keep_content_lookups tokens).bind fun _ =>
    Resolver.leavesBackend_records keep_content_lookups tokens

theorem fresh_displayReferences :
    Preserves stored.Fresh (Attribute.displayReferences stored.source lookups) := by
  refine fresh_referenceTokens.bind fun tokens => ?_
  refine Preserves.bind (fun _ h => h) fun attr => fresh_resolving fun flavor => ?_
  exact Resolver.leavesBackend_display keep_content_lookups _ tokens

/-! ## Calls -/

/-- What a user does with an attribute and its file. -/
inductive Call where
  | read
  | readSelection
  | write (data : Data)
  | setSelection (selection : Selection)
  | selectMembers (members : MemberSelection)
  | clear
  | referenceRecord (token : Token)
  | regionText (token : Token)
  | referenceTokens
  | referenceRecords
  | displayReferences
  /-- A question fails from now on. -/
  | fail (name : String)
  /-- A question is answered again. -/
  | heal (name : String)

/-- Changes the file of a store. -/
def changeFile (f : File → File) : Attribute.Use Store Unit :=
  modify fun (attr, s) => (attr, { s with file := f s.file })

/-- A call, of which only what it leaves behind matters here. -/
def Call.run (stored : StoredAttribute) : Call → Attribute.Use Store Unit
  | .read => do let _ ← Attribute.read stored.source
  | .readSelection => do let _ ← Attribute.readSelection stored.source
  | .write data => Attribute.write stored.source data
  | .setSelection selection => Attribute.change (Attribute.setSelection selection)
  | .selectMembers members => Attribute.change (Attribute.selectMembers members)
  | .clear => Attribute.change Attribute.clear
  | .referenceRecord token => do
    let _ ← Attribute.referenceRecord stored.source lookups token
  | .regionText token => do let _ ← Attribute.regionText stored.source lookups token
  | .referenceTokens => do let _ ← Attribute.referenceTokens stored.source
  | .referenceRecords => do let _ ← Attribute.referenceRecords stored.source lookups
  | .displayReferences => do let _ ← Attribute.displayReferences stored.source lookups
  | .fail name => changeFile (File.fail name)
  | .heal name => changeFile (File.heal name)

/-- The state after calls, whether they succeed or fail. -/
def afterCalls (stored : StoredAttribute) (calls : List Call) (state : Attribute × Store) :
    Attribute × Store :=
  calls.foldl (fun state call => stateAfter (call.run stored) state) state

/-- **No call makes what is kept stale.** -/
theorem fresh_call (call : Call) : Preserves stored.Fresh (call.run stored) := by
  cases call with
  | read => exact fresh_read.bind fun _ => .pure ()
  | readSelection => exact fresh_readSelection.bind fun _ => .pure ()
  | write data => exact fresh_write data
  | setSelection | selectMembers | clear => exact fun _ _ => fresh_of_unread rfl
  | referenceRecord token =>
    refine Preserves.bind (fresh_resolving fun flavor => ?_) fun _ => .pure ()
    exact Resolver.leavesBackend_record keep_content_lookups token
  | regionText token =>
    refine Preserves.bind (fresh_resolving fun flavor => ?_) fun _ => .pure ()
    exact Resolver.leavesBackend_regionText keep_content_lookups token
  | referenceTokens => exact fresh_referenceTokens.bind fun _ => .pure ()
  | referenceRecords => exact fresh_referenceRecords.bind fun _ => .pure ()
  | displayReferences => exact fresh_displayReferences.bind fun _ => .pure ()
  | fail | heal => exact fun _ h => h.of_eq rfl rfl rfl

theorem fresh_afterCalls (calls : List Call) {state : Attribute × Store} (h : stored.Fresh state) :
    stored.Fresh (stored.afterCalls calls state) := by
  unfold afterCalls
  induction calls generalizing state with
  | nil => exact h
  | cons call rest ih => exact ih (fresh_call call h)

/-- What a read past the attribute gives, with its options, of what is stored
when nothing is made to fail. -/
def uncached (stored : StoredAttribute) (state : Attribute × Store) :
    EStateM.Result Error Store Data :=
  stored.source.read state.1.options
    { state.2 with file := { state.2.file with faults := [] } }

/-- **A read through an attribute is as good as one past it.** After any
calls on a new attribute, whatever is stored and whatever was made to fail,
the data that a read gives are those that a read of the same store gives
when nothing fails and nothing is kept; and what is shown of them is what the
selection of now shows of those. -/
theorem read_eq_uncached (settings : Settings) (store : Store) (calls : List Call) :
    let state := stored.afterCalls calls (.ofSpace stored.space settings, store)
    (∀ data state', Attribute.read stored.source state = .ok data state' →
      ∃ s, stored.uncached state = .ok data s) ∧
    ∀ shown state', Attribute.readSelection stored.source state = .ok shown state' →
      ∃ data s, stored.uncached state = .ok data s ∧
        shown = data.applySelection stored.type state.1.selection := by
  intro state
  have hfresh : stored.Fresh state := fresh_afterCalls calls (fresh_of_unread rfl)
  constructor
  · intro data state' hread
    exact read_of_view rfl (view_of_cachedRead hfresh hread).1
  · intro shown state' hread
    obtain ⟨data, t, hdata, hshown⟩ := bind_ok hread
    obtain ⟨hview, hselection⟩ := view_of_cachedRead hfresh hdata
    obtain ⟨s, huncached⟩ : ∃ s, stored.uncached state = .ok data s := read_of_view rfl hview
    refine ⟨data, s, huncached, ?_⟩
    rw [← hselection]
    cases hshown
    rfl

/-- Two numbers that were read, not overwritten by a write that failed, and
then overwritten by one that did not: they can be read through the attribute,
and are the same past it. -/
theorem read_after_failed_write :
    let stored : StoredAttribute :=
      { name := "counts", type := .ofInteger 1 false, space := .line 2 }
    let calls : List Call :=
      [.read, .fail "write_raw", .write (.ints ⟨.one, false⟩ [3, 4]), .readSelection,
        .heal "write_raw", .write (.ints ⟨.one, false⟩ [5, 6]), .fail "open_object"]
    let state := stored.afterCalls calls
      (.ofSpace stored.space .defaults, ⟨.ofPath "f.h5", .packed [1, 2]⟩)
    ∃ data state', Attribute.read stored.source state = .ok data state' ∧
      ∃ s, stored.uncached state = .ok data s := by
  intro stored calls state
  cases hread : Attribute.read stored.source state with
  | ok data state' =>
    exact ⟨data, state', rfl, (read_eq_uncached .defaults _ calls).1 data state' hread⟩
  | error e state' =>
    have hsome : (attempt (Attribute.read stored.source) state).1.isSome = true := by
      decide +kernel
    rw [attempt, hread] at hsome
    cases hsome

end StoredAttribute

end Memory

end TypedAttr
