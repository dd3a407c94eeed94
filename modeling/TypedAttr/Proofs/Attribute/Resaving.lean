import TypedAttr.Proofs.Attribute.PlainWrites
import TypedAttr.Proofs.Data.Resaving
/-!
# Attributes that are saved again

An attribute that is read and written back holds what it can be read and
written back as for ever after: it `Settles` in one such cycle, whatever was
stored (`settles_of_writeBack`), and the next ones leave what is stored as it
is (`writeBack_of_settles`), as often as they are repeated.
-/

namespace TypedAttr

namespace Attribute

variable {σ : Type}

/-- Reads all elements, and writes them as they were read. -/
def writeBack (source : AttributeSource σ) : Use σ Unit := do
  let data ← read source
  write source data

/-- The same so many times. -/
def writeBacks (source : AttributeSource σ) : Nat → Use σ Unit
  | 0 => pure ()
  | n + 1 => do
    writeBack source
    writeBacks source n

end Attribute

namespace Memory

namespace StoredAttribute

variable {stored : StoredAttribute} {options : ElementOptions} {content : Content} {data : Data}

/-! ## Data that were read -/

/-- Whether data are rejected depends on their type, and on whether they are
wide floats. -/
theorem preflight_congr {other : Data} (h : other.isWideFloat = data.isWideFloat) :
    stored.source.preflight other = stored.source.preflight data := by
  unfold AttributeSource.preflight
  rw [h]

theorem isWideFloat_of_preflight (h : stored.source.preflight data = .ok ()) :
    stored.type.leafBase.isWideFloat = false ∧ data.isWideFloat = false := by
  have htype : stored.source.type = stored.type := rfl
  unfold AttributeSource.preflight at h
  rw [htype] at h
  by_cases hwide : (stored.type.leafBase.isWideFloat || data.isWideFloat) = true
  · rw [if_pos hwide] at h
    split at h <;> cases h
  · simpa using hwide

/-- **Content that lasts**: it is read as data that are stored as just that
content. -/
def Lasts (stored : StoredAttribute) (options : ElementOptions) (content : Content) : Prop :=
  ∃ data payload, stored.view options content = .ok data ∧
    data.paths? stored.type = none ∧ stored.source.preflight data = .ok () ∧
      stored.Packs options data payload ∧ content = .ofPayload payload

/-- Of any type but those of variable length, packed bytes are read. -/
theorem view_packed_iff (hvar : stored.type.isVarText = false)
    (hsequence : stored.type.isSequence = false) :
    stored.view options content = .ok data ↔
      ∃ bytes, content = .packed bytes ∧
        bytes.length = stored.space.numElements * stored.type.size ∧
          data = .ofPacked stored.type options stored.space.numElements bytes := by
  unfold view
  cases htype : stored.type with
  | varText traits =>
    rw [htype] at hvar
    cases hvar
  | sequence base traits =>
    rw [htype] at hsequence
    cases hsequence
  | _ =>
    cases content with
    | packed bytes =>
      dsimp only
      split
      · next hlength => simp [hlength, eq_comm]
      · next hlength => simp [hlength]
    | varTexts items => simp
    | runs items => simp

/-- Data that were read name no paths. -/
theorem paths?_of_view (hview : stored.view options content = .ok data) :
    data.paths? stored.type = none := by
  by_cases hfixed : stored.type.isVarText = false ∧ stored.type.isSequence = false
  · obtain ⟨bytes, -, -, rfl⟩ := (view_packed_iff hfixed.1 hfixed.2).1 hview
    exact Data.paths?_ofPacked _ _ _ _
  · cases htype : stored.type with
    | varText traits => cases data <;> rfl
    | sequence base traits => cases data <;> rfl
    | _ =>
      rw [htype] at hfixed
      exact absurd ⟨rfl, rfl⟩ hfixed

theorem length_resized {α : Type} (fill : α) (count : Nat) (items : List α) :
    (resized fill count items).length = count := by
  rw [resized, List.length_append, List.length_take, List.length_replicate]
  omega

theorem resized_resized {α : Type} (fill : α) (count : Nat) (items : List α) :
    resized fill count (resized fill count items) = resized fill count items := by
  have hlength : (resized fill count items).length = count := length_resized fill count items
  rw [resized, hlength, Nat.sub_self, List.take_of_length_le (Nat.le_of_eq hlength)]
  exact List.append_nil _

/-- Texts of any length last: there are as many as there are elements. -/
theorem lasts_of_varText (hvar : stored.type.isVarText = true) {payload : Data.Payload}
    (hview : stored.view options content = .ok data)
    (hpreflight : stored.source.preflight data = .ok ())
    (hpacks : stored.Packs options data payload) : stored.Lasts options (.ofPayload payload) := by
  have hpaths := paths?_of_view hview
  cases htype : stored.type with
  | varText traits =>
    have hread := hview
    unfold view at hread
    rw [htype] at hread
    cases content with
    | packed bytes => cases hread
    | runs items => cases hread
    | varTexts items =>
      obtain rfl := Except.ok.inj hread
      have hpack := hpacks.1
      rw [htype] at hpack
      obtain ⟨_, -, hpayload⟩ := exceptBind_ok hpack
      obtain rfl := Except.ok.inj hpayload
      refine ⟨_, _, ?_, hpaths, hpreflight, hpacks, rfl⟩
      unfold view
      rw [htype]
      simp only [Content.ofPayload, resized_resized]
  | _ =>
    rw [htype] at hvar
    cases hvar

/-- **What was read and can be written lasts** once it is written. -/
theorem lasts_of_view (hnames : stored.type.hasDistinctNames = true) {payload : Data.Payload}
    (hview : stored.view options content = .ok data)
    (hpreflight : stored.source.preflight data = .ok ())
    (hpacks : stored.Packs options data payload) : stored.Lasts options (.ofPayload payload) := by
  cases hvar : stored.type.isVarText with
  | true => exact lasts_of_varText hvar hview hpreflight hpacks
  | false =>
    have hsequence : stored.type.isSequence = false :=
      AttributeSource.isSequence_of_preflight hpreflight
    obtain ⟨hwide, hdata⟩ := isWideFloat_of_preflight hpreflight
    obtain ⟨bytes, rfl, hlength, rfl⟩ := (view_packed_iff hvar hsequence).1 hview
    obtain ⟨saved, rfl, hsaved, hagain⟩ :=
      Data.pack_ofPacked_again hnames hvar hwide hlength hpacks.1
    refine ⟨_, _, (view_packed_iff hvar hsequence).2 ⟨saved, rfl, hsaved, rfl⟩,
      Data.paths?_ofPacked _ _ _ _, ?_, ⟨hagain, hsaved⟩, rfl⟩
    rw [preflight_congr ((Data.isWideFloat_ofPacked hwide).trans hdata.symm), hpreflight]

/-! ## Cycles -/

variable {attr : Attribute} {s : Store}

/-- A state from which nothing will change any more: what is stored lasts, and
what the attribute keeps is not stale. -/
structure Settles (stored : StoredAttribute) (state : Attribute × Store) : Prop where
  healthy : state.2.file.faults = []
  fresh : stored.Fresh state
  lasts : stored.Lasts state.1.options state.2.content

/-- **One cycle settles an attribute**, whatever was stored of it. -/
theorem settles_of_writeBack (hnames : stored.type.hasDistinctNames = true)
    {state state' : Attribute × Store} (hfaults : state.2.file.faults = [])
    (hfresh : stored.Fresh state)
    (h : Attribute.writeBack stored.source state = .ok () state') : stored.Settles state' := by
  obtain ⟨data, ⟨attr, s⟩, hread, hwrite⟩ := bind_ok h
  obtain ⟨attr', s'⟩ := state'
  have hview := (view_of_cachedRead hfresh hread).1
  obtain ⟨hoptions, -, hkept⟩ := unchanged_of_cachedRead hread
  obtain ⟨rfl, hfile, hpreflight, payload, hpacks, hcontent⟩ :=
    packed_of_write (paths?_of_view hview) hwrite
  rw [← hoptions] at hview
  refine ⟨hfile.trans (hkept.trans hfaults), fresh_of_unread rfl, ?_⟩
  rw [hcontent]
  exact lasts_of_view hnames hview hpreflight hpacks

/-- **Every other cycle succeeds and changes nothing** that is stored. -/
theorem writeBack_of_settles {state : Attribute × Store} (h : stored.Settles state) :
    ∃ state', Attribute.writeBack stored.source state = .ok () state' ∧
      state'.2.content = state.2.content ∧ stored.Settles state' := by
  obtain ⟨attr, s⟩ := state
  obtain ⟨data, payload, hview, hpaths, hpreflight, hpacks, hcontent⟩ := h.lasts
  obtain ⟨attr', s', hread⟩ := cachedRead_of_view h.healthy h.fresh hview
  obtain ⟨hoptions, hstored, hkept⟩ := unchanged_of_cachedRead hread
  rw [← hoptions] at hpacks
  obtain ⟨s'', hwrite, hwritten, hhealthy⟩ :=
    write_of_packs hpaths (hkept.trans h.healthy) hpreflight hpacks
  have hsame : s''.content = s.content := hwritten.trans hcontent.symm
  refine ⟨_, (bind_of_ok hread _).trans hwrite, hsame, hhealthy, fresh_of_unread rfl, ?_⟩
  have hlasts := h.lasts
  rwa [← hoptions, ← hsame] at hlasts

/-- So do all that follow it. -/
theorem writeBacks_of_settles {state : Attribute × Store} (h : stored.Settles state) (n : Nat) :
    ∃ state', Attribute.writeBacks stored.source n state = .ok () state' ∧
      state'.2.content = state.2.content := by
  induction n generalizing state with
  | zero => exact ⟨state, rfl, rfl⟩
  | succ n ih =>
    obtain ⟨next, hnext, hcontent, hsettles⟩ := writeBack_of_settles h
    obtain ⟨last, hlast, hkept⟩ := ih hsettles
    exact ⟨last, (bind_of_ok hnext _).trans hlast, hkept.trans hcontent⟩

/-- **Reading and writing back reaches a fixed point in one step.** Of any
attribute whose compounds name their members apart, whatever is stored,
however it is read and whichever members were selected: once the data that
were read have been written back, they can be read and written back as often
as one likes, and what is stored stays as the first time left it. -/
theorem writeBacks_fixed (hnames : stored.type.hasDistinctNames = true)
    {state state' : Attribute × Store} (hfaults : state.2.file.faults = [])
    (hfresh : stored.Fresh state)
    (h : Attribute.writeBack stored.source state = .ok () state') (n : Nat) :
    ∃ state'', Attribute.writeBacks stored.source n state' = .ok () state'' ∧
      state''.2.content = state'.2.content :=
  writeBacks_of_settles (settles_of_writeBack hnames hfaults hfresh h) n

/-- A record with a name whose end falls within its last letter, a number
that does not convert and a member that was not selected: the first time all
three are changed, and never again. -/
theorem writeBacks_fixed_record :
    let stored : StoredAttribute :=
      { name := "a"
        type := .ofMembers
          [("name", (Datatype.ofFixedText 2).withPadding .terminated),
            ("odd", .ofInteger 3 false), ("left", .ofInteger 1 false)]
        space := .line 1 }
    let attr := (Attribute.ofSpace stored.space .defaults).selectMembers (.only ["name", "odd"])
    let state : Attribute × Store := (attr, ⟨.ofPath "f.h5", .packed [0xc3, 0xa9, 1, 2, 3, 4]⟩)
    let saved : Content := .packed [0xc3, 0, 0, 0, 0, 0]
    ∃ state', Attribute.writeBack stored.source state = .ok () state' ∧
      state'.2.content = saved ∧
      ∀ n, ∃ state'', Attribute.writeBacks stored.source n state' = .ok () state'' ∧
        state''.2.content = saved := by
  intro stored attr state saved
  have hsaved : (stateAfter (Attribute.writeBack stored.source) state).2.content = saved := by
    decide +kernel
  have hsome : (attempt (Attribute.writeBack stored.source) state).1.isSome = true := by
    decide +kernel
  cases h : Attribute.writeBack stored.source state with
  | ok _ state' =>
    rw [stateAfter, h] at hsaved
    refine ⟨state', rfl, hsaved, fun n => ?_⟩
    obtain ⟨state'', hagain, hkept⟩ :=
      writeBacks_fixed (by decide) rfl (fresh_of_unread rfl) h n
    exact ⟨state'', hagain, hkept.trans hsaved⟩
  | error e state' =>
    rw [attempt, h] at hsome
    cases hsome

end StoredAttribute

end Memory

end TypedAttr
