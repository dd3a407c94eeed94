import TypedAttr.Proofs.Attribute.Freshness
import TypedAttr.Proofs.Attribute.Resaving
import TypedAttr.Proofs.Data.Counts
/-!
# How much is read and shown

A read gives the data of all elements, however they are stored: only texts in
slots without bytes are lost (`holdsElements_read_iff`). What is shown of the
data is as much as the selection announces if it has more than two axes, as far
as words count; up to two, the data are shown whole, and a selection that
announces anything else is wrong about them (`hasAnnounced_readSelection_iff`).
-/

namespace TypedAttr

namespace Memory

namespace StoredAttribute

variable {stored : StoredAttribute} {options : ElementOptions} {content : Content} {data : Data}

/-! ## Data in what is stored -/

/-- **Data in what is stored hold all elements**, if none is lost. -/
theorem holdsElements_of_view (hview : stored.view options content = .ok data)
    (hkept : stored.type.losesTexts options = false) :
    data.HoldsElements stored.type stored.space.numElements := by
  by_cases hfixed : stored.type.isVarText = false ∧ stored.type.isSequence = false
  · obtain ⟨bytes, -, hlength, rfl⟩ := (view_packed_iff hfixed.1 hfixed.2).1 hview
    exact Data.holdsElements_ofPacked hfixed.1 hkept hlength
  · unfold view at hview
    cases htype : stored.type with
    | varText traits =>
      rw [htype] at hview
      cases content with
      | varTexts items =>
        obtain rfl := Except.ok.inj hview
        exact Data.holdsElements_of_single rfl (length_resized _ _ _)
      | packed | runs => cases hview
    | sequence base traits =>
      rw [htype] at hview
      cases content with
      | runs items =>
        obtain rfl := Except.ok.inj hview
        exact Data.holdsElements_of_single rfl
          ((List.length_map _).trans (length_resized _ _ _))
      | packed | varTexts => cases hview
    | _ =>
      rw [htype] at hfixed
      exact absurd ⟨rfl, rfl⟩ hfixed

/-- If they are lost, there is nothing in the data. -/
theorem eq_of_view_of_losesTexts (hview : stored.view options content = .ok data)
    (hlost : stored.type.losesTexts options = true) : data = .texts [] := by
  obtain ⟨-, traits, htype⟩ := Datatype.losesTexts_iff.1 hlost
  have hfixed : stored.type.isVarText = false ∧ stored.type.isSequence = false := by
    rw [htype]
    exact ⟨rfl, rfl⟩
  obtain ⟨bytes, -, hlength, rfl⟩ := (view_packed_iff hfixed.1 hfixed.2).1 hview
  exact Data.ofPacked_of_losesTexts hlost hlength

/-- How many items are in data, then. -/
theorem length_of_view (hview : stored.view options content = .ok data) :
    data.length = if stored.type.losesTexts options then 0
      else stored.space.numElements * data.groupOf stored.type := by
  cases hlost : stored.type.losesTexts options with
  | true =>
    rw [eq_of_view_of_losesTexts hview hlost]
    rfl
  | false => exact holdsElements_of_view hview hlost

/-- All elements are held just if none is lost, or there is none. -/
theorem holdsElements_iff_of_view (hview : stored.view options content = .ok data) :
    data.HoldsElements stored.type stored.space.numElements ↔
      (stored.type.losesTexts options = true → stored.space.numElements = 0) := by
  cases hlost : stored.type.losesTexts options with
  | true =>
    have hnone : (Data.texts []).HoldsElements stored.type stored.space.numElements ↔
        0 = stored.space.numElements * 1 := Iff.rfl
    rw [eq_of_view_of_losesTexts hview hlost, hnone, Nat.mul_one, eq_comm]
    exact ⟨fun h _ => h, fun h => h rfl⟩
  | false => exact ⟨fun _ h => absurd h (by decide), fun _ => holdsElements_of_view hview hlost⟩

/-! ## What is read -/

/-- **A read that succeeds gives all elements, unless they are lost**: past an
attribute, from any store, and through it, after any calls on a new one. Lost
are texts in slots without bytes, if texts are asked for. However many there
are, none of them is read. -/
theorem holdsElements_read_iff (stored : StoredAttribute) :
    (∀ options s data s', stored.source.read options s = .ok data s' →
      (data.HoldsElements stored.type stored.space.numElements ↔
          (stored.type.losesTexts options = true → stored.space.numElements = 0)) ∧
        (stored.type.losesTexts options = true → data = .texts [])) ∧
      ∀ (settings : Settings) (store : Store) (calls : List Call),
        let state := stored.afterCalls calls (.ofSpace stored.space settings, store)
        ∀ data state', Attribute.read stored.source state = .ok data state' →
          (data.HoldsElements stored.type stored.space.numElements ↔
              (stored.type.losesTexts state.1.options = true → stored.space.numElements = 0)) ∧
            (stored.type.losesTexts state.1.options = true → data = .texts []) := by
  constructor
  · intro options s data s' hread
    have hview := view_of_read hread
    exact ⟨holdsElements_iff_of_view hview, eq_of_view_of_losesTexts hview⟩
  · intro settings store calls state data state' hread
    have hfresh : stored.Fresh state := fresh_afterCalls calls (fresh_of_unread rfl)
    have hview := (view_of_cachedRead hfresh hread).1
    exact ⟨holdsElements_iff_of_view hview, eq_of_view_of_losesTexts hview⟩

/-- Two texts without bytes, of which none is read. -/
theorem holdsElements_read_empty_texts :
    let stored : StoredAttribute := { name := "marks", type := .ofFixedText 0, space := .line 2 }
    let state := stored.afterCalls [.write (.texts ["", ""])]
      (.ofSpace stored.space .defaults, ⟨.ofPath "f.h5", .packed []⟩)
    ∃ data state', Attribute.read stored.source state = .ok data state' ∧
      ¬data.HoldsElements stored.type 2 := by
  intro stored state
  obtain ⟨state', hread⟩ : ∃ state', Attribute.read stored.source state =
      .ok (.texts []) state' := ⟨_, rfl⟩
  refine ⟨_, state', hread, fun hholds => ?_⟩
  have hcount : stored.type.losesTexts state.1.options = true → stored.space.numElements = 0 :=
    ((holdsElements_read_iff stored).2 .defaults _ _ _ state' hread).1.1 hholds
  revert hcount
  decide

/-! ## What is shown -/

/-- What is shown is the part of what a read gives that the selection of now
shows. -/
theorem readSelection_of_read {state state' : Attribute × Store} (hfresh : stored.Fresh state)
    (hread : Attribute.read stored.source state = .ok data state') :
    Attribute.readSelection stored.source state =
      .ok (data.applySelection stored.type state.1.selection) state' := by
  rw [Attribute.readSelection, bind_of_ok hread, ← (view_of_cachedRead hfresh hread).2]
  rfl

/-- **What a selection of more than two axes shows is as large as it announces**,
of any data and after any calls on a new attribute, if words count so far. One
of up to two axes shows all data, whatever its counts, and is right about them
only if they multiply to what there is, a group of no items counting as one. -/
theorem hasAnnounced_readSelection_iff (stored : StoredAttribute) :
    (∀ (type : Datatype) (data : Data) (selection : Selection),
      selection.IsCounted (data.groupOf type) →
      ∃ view, data.applySelection type selection = some view ∧
        (view.HasAnnounced type selection ↔
          2 < selection.rank ∨
            data.length = gridSize selection.count * max (data.groupOf type) 1)) ∧
      ∀ (settings : Settings) (store : Store) (calls : List Call),
        let state := stored.afterCalls calls (.ofSpace stored.space settings, store)
        ∀ data state', Attribute.read stored.source state = .ok data state' →
          let group := data.groupOf stored.type
          state.1.selection.IsCounted group →
          ∃ view, Attribute.readSelection stored.source state = .ok (some view) state' ∧
            (view.HasAnnounced stored.type state.1.selection ↔ 2 < state.1.selection.rank ∨
              (if stored.type.losesTexts state.1.options then 0
                  else stored.space.numElements * group) =
                gridSize state.1.selection.count * max group 1) := by
  refine ⟨fun _ _ _ => Data.hasAnnounced_applySelection_iff, ?_⟩
  intro settings store calls state data state' hread group hcounted
  have hfresh : stored.Fresh state := fresh_afterCalls calls (fresh_of_unread rfl)
  obtain ⟨view, hview, hannounced⟩ := Data.hasAnnounced_applySelection_iff hcounted
  rw [length_of_view (view_of_cachedRead hfresh hread).1] at hannounced
  exact ⟨view, hview ▸ readSelection_of_read hfresh hread, hannounced⟩

/-- One of three numbers is announced, and all are shown. -/
theorem hasAnnounced_readSelection_first :
    let stored : StoredAttribute :=
      { name := "counts", type := .ofInteger 1 true, space := .line 3 }
    let state := stored.afterCalls
      [.setSelection { Selection.ofSpace stored.space with count := [1] }]
      (.ofSpace stored.space .defaults, ⟨.ofPath "f.h5", .packed [0, 0, 0]⟩)
    ∃ view state', Attribute.readSelection stored.source state = .ok (some view) state' ∧
      ¬view.HasAnnounced stored.type state.1.selection := by
  intro stored state
  obtain ⟨state', hread⟩ : ∃ state', Attribute.read stored.source state =
      .ok (.ints ⟨.one, true⟩ [0, 0, 0]) state' := ⟨_, rfl⟩
  have hcounted : state.1.selection.IsCounted 1 :=
    (Selection.isCounted_whole (by decide)).2 (by decide)
  obtain ⟨view, hshown, hiff⟩ :=
    (hasAnnounced_readSelection_iff stored).2 .defaults _ _ _ state' hread hcounted
  refine ⟨view, state', hshown, fun hannounced => ?_⟩
  have hcounts := hiff.1 hannounced
  revert hcounts
  decide

end StoredAttribute

end Memory

end TypedAttr
