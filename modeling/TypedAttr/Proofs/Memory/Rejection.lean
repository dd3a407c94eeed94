import TypedAttr.Proofs.Attribute.Readable
import TypedAttr.Proofs.Data.Rejection
import TypedAttr.Proofs.Memory.Opening
/-!
# Rejected writes

A rejection says that a write can never succeed, whatever is stored and
whatever the backend does. Those that `preflight` finds come before anything
is asked of the backend. It looks at the top of the type and of the data
only, though: values can be rejected on the way into their slots, too, for
what is further down in them or in the type (`RejectsValues.reason`).
`WriteCall.rejected_iff` tells the two apart, and that there are no others.
-/

namespace TypedAttr

variable {σ α β : Type}

/-! ## Actions that reject nothing -/

/-- An action of which no failure is a rejection. -/
def NeverRejects (action : Action σ α) : Prop :=
  ∀ ⦃s e s'⦄, action s = .error e s' → e.isRejection = false

namespace NeverRejects

theorem throw {e : Error} (h : e.isRejection = false) :
    NeverRejects (MonadExcept.throw e : Action σ α) := by
  rintro s _ _ ⟨⟩
  exact h

theorem pure (a : α) : NeverRejects (Pure.pure a : Action σ α) := fun _ _ _ h => by cases h

theorem ofExcept {result : Except Error α} (h : Admitted result) :
    NeverRejects (Action.ofExcept result : Action σ α) := by
  cases result with
  | ok a => exact pure a
  | error e => exact throw (h rfl)

theorem bind {action : Action σ α} {next : α → Action σ β} (h : NeverRejects action)
    (hnext : ∀ a, NeverRejects (next a)) : NeverRejects (action >>= next) := by
  intro s e s' herror
  cases hfirst : action s with
  | ok a t =>
    rw [bind_of_ok hfirst] at herror
    exact hnext a herror
  | error e' t =>
    rw [bind_of_error hfirst] at herror
    cases herror
    exact h hfirst

theorem mapM {f : α → Action σ β} (h : ∀ a, NeverRejects (f a)) (items : List α) :
    NeverRejects (items.mapM f) := by
  induction items with
  | nil => exact pure []
  | cons a rest ih =>
    rw [List.mapM_cons]
    exact (h a).bind fun b => ih.bind fun bs => pure (b :: bs)

end NeverRejects

namespace Memory

namespace StoredAttribute

variable {stored : StoredAttribute} {options : ElementOptions} {data : Data}

theorem neverRejects_onFile {action : Action File α} (h : NeverRejects action) :
    NeverRejects (onFile action) := by
  intro s e s' herror
  rw [onFile, Action.onPart] at herror
  cases haction : action s.file with
  | ok a file =>
    rw [haction] at herror
    cases herror
  | error e' file =>
    rw [haction] at herror
    cases herror
    exact h haction

theorem neverRejects_enter (name : String) : NeverRejects (File.enter name) := by
  intro file e file' herror
  rw [File.enter_eq] at herror
  split at herror
  · cases herror
    rfl
  · cases herror

/-- Tokens are made unless there is nothing at a path. Those of regions are
rejected, but not asked for. -/
theorem neverRejects_createReference (path : String) {flavor : ReferenceFlavor}
    (hflavor : flavor ≠ .region) :
    NeverRejects (stored.source.createReference path flavor) := by
  refine neverRejects_onFile ((neverRejects_enter _).bind fun _ => ?_)
  intro file e file' herror
  rw [get_bind] at herror
  cases hfound : file.find? path with
  | none =>
    rw [hfound] at herror
    cases herror
    rfl
  | some id =>
    rw [hfound] at herror
    cases flavor with
    | object | standard => cases herror
    | region => exact absurd rfl hflavor

theorem neverRejects_access (name : String) {wrap : String → Error}
    (hwrap : ∀ reason, (wrap reason).isRejection = false) (attr memory : HandleId) :
    NeverRejects (access name wrap attr memory) := by
  rw [access_eq]
  refine (neverRejects_onFile (neverRejects_enter name)).bind fun _ => ?_
  intro s e s' herror
  rw [get_bind] at herror
  refine NeverRejects.ofExcept ?_ herror
  unfold opened
  split
  · exact .error (hwrap _)
  · split
    · exact .error (hwrap _)
    · exact .ok _

theorem neverRejects_store (attr memory : HandleId) (payload : Data.Payload) :
    NeverRejects (stored.store attr memory payload) := by
  cases payload with
  | packed bytes =>
    refine (neverRejects_access _ (fun _ => rfl) attr memory).bind fun content => ?_
    dsimp only
    split
    · exact fun _ _ _ h => by cases h
    · exact .throw rfl
  | varTexts items =>
    refine (neverRejects_access _ (fun _ => rfl) attr memory).bind fun content => ?_
    exact fun _ _ _ h => by cases h

/-- A write that is not rejected at once is not one of region references. -/
theorem flavor?_of_preflight (h : stored.source.preflight data = .ok ()) :
    stored.type.flavor? ≠ some .region := by
  intro hregion
  have hsource : stored.source.type.flavor? = some .region := hregion
  unfold AttributeSource.preflight at h
  simp only [hsource, if_true] at h
  split at h
  · cases h
  · split at h
    · cases h
    · split at h
      · cases h
      · cases h

/-- Values that are rejected when they are encoded. -/
def RejectsValues (stored : StoredAttribute) (options : ElementOptions) (data : Data)
    (e : Error) : Prop :=
  ∃ items, data = .values items ∧ items.length = stored.space.numElements ∧
    stored.type.encodeElements options items = .error e

theorem payload_rejected {e : Error} {s t : Store} (he : e.isRejection = true)
    (hpreflight : stored.source.preflight data = .ok ())
    (h : stored.source.payload options data s = .error e t) :
    t = s ∧ stored.RejectsValues options data e := by
  unfold AttributeSource.payload at h
  cases hpaths : data.paths? stored.source.type with
  | some paths =>
    have hflavor : (stored.source.type.flavor?.getD .standard) ≠ .region := by
      have hregion := flavor?_of_preflight hpreflight
      change (stored.type.flavor?.getD .standard) ≠ .region
      cases hfound : stored.type.flavor? with
      | none => decide
      | some flavor =>
        rintro rfl
        exact hregion hfound
    have hnever : NeverRejects (stored.source.packPaths paths) := by
      refine (NeverRejects.ofExcept (Data.admitted_checkCount _ _)).bind fun _ => ?_
      refine (NeverRejects.mapM (fun path => neverRejects_createReference path hflavor) paths).bind
        fun tokens => ?_
      exact (NeverRejects.ofExcept (Data.admitted_packTokens tokens)).bind fun bytes => .pure _
    rw [hpaths] at h
    exact absurd (he.symm.trans (hnever h)) (by decide)
  | none =>
    rw [hpaths] at h
    cases hpack : data.pack stored.source.type options stored.source.count with
    | ok payload =>
      rw [hpack] at h
      cases h
    | error e' =>
      rw [hpack] at h
      cases h
      exact ⟨rfl, Data.pack_rejected he hpack⟩

theorem writeWith_rejected {attr memory : HandleId} {e : Error} {s t : Store}
    (he : e.isRejection = true) (hpreflight : stored.source.preflight data = .ok ()) :
    stored.source.writeWith options data attr memory s = .error e t ↔
      t = s ∧ stored.RejectsValues options data e := by
  rw [writeWith_eq]
  constructor
  · intro h
    cases hpayload : stored.source.payload options data s with
    | ok payload u =>
      rw [bind_of_ok hpayload] at h
      exact absurd (he.symm.trans (neverRejects_store attr memory payload h)) (by decide)
    | error e' u =>
      rw [bind_of_error hpayload] at h
      cases h
      exact payload_rejected he hpreflight hpayload
  · rintro ⟨rfl, items, rfl, hcount, hencode⟩
    have hpack : (Data.values items).pack stored.type options stored.space.numElements =
        .error e := by
      simp only [Data.pack, ← hcount, Data.checkCount_self, hencode]
      rfl
    have hpayload : stored.source.payload options (.values items) t = .error e t :=
      congrFun (congrArg Action.ofExcept hpack) t
    exact bind_of_error hpayload _

/-! ## Rejected writes -/

/-- **A write that is rejected** is rejected at once, and nothing is asked, or
it is one of values, and both handles were there and are given back. -/
theorem write_rejected {e : Error} {s s' : Store} (he : e.isRejection = true) :
    stored.source.write options data s = .error e s' ↔
      stored.source.preflight data = .error e ∧ s' = s ∨
      stored.source.preflight data = .ok () ∧ stored.RejectsValues options data e ∧
        Opens s ∧ s' = visited s := by
  rw [AttributeSource.write]
  cases hpreflight : stored.source.preflight data with
  | error e' =>
    constructor
    · rintro ⟨⟩
      exact .inl ⟨rfl, rfl⟩
    · rintro (⟨hsame, rfl⟩ | ⟨hnone, -⟩)
      · cases hsame
        rfl
      · cases hnone
  | ok _ =>
    change stored.source.withHandles (stored.source.writeWith options data) s = .error e s' ↔ _
    by_cases hopens : Opens s
    · rw [stored.withHandles_eq hopens]
      constructor
      · intro h
        cases hbody : stored.source.writeWith options data ⟨s.file.lent⟩ ⟨s.file.lent + 1⟩
            (stored.begun s) with
        | ok _ t =>
          rw [hbody] at h
          cases h
        | error e' t =>
          rw [hbody] at h
          cases h
          obtain ⟨rfl, hvalues⟩ := (writeWith_rejected he hpreflight).1 hbody
          exact .inr ⟨rfl, hvalues, hopens, stored.ended_begun s⟩
      · rintro (⟨hnone, -⟩ | ⟨-, hvalues, -, rfl⟩)
        · cases hnone
        · rw [(writeWith_rejected he hpreflight).2 ⟨rfl, hvalues⟩, ← stored.ended_begun s]
          rfl
    · constructor
      · intro h
        obtain ⟨kind, reason, t, hfails⟩ :=
          stored.withHandles_of_fault hopens (stored.source.writeWith options data)
        rw [hfails] at h
        cases h
        cases he
      · rintro (⟨hnone, -⟩ | ⟨-, -, hopened, -⟩)
        · cases hnone
        · exact absurd hopened hopens

/-- A call fails as its write does, and leaves the attribute as it is. -/
theorem WriteCall.run_error_iff {call : WriteCall} {attr attr' : Attribute} {s s' : Store}
    {e : Error} :
    call.run stored (attr, s) = .error e (attr', s') ↔
      attr' = attr ∧ stored.source.write (call.options attr) call.data s = .error e s' := by
  rw [call.run_eq]
  cases stored.source.write (call.options attr) call.data s with
  | ok _ t =>
    constructor
    · rintro ⟨⟩
    · rintro ⟨-, ⟨⟩⟩
  | error e' t =>
    constructor
    · rintro ⟨⟩
      exact ⟨rfl, rfl⟩
    · rintro ⟨rfl, ⟨⟩⟩
      rfl

/-- Values are rejected for what is never written, in the type or in one of
them. -/
theorem RejectsValues.reason {e : Error} (he : e.isRejection = true)
    (h : stored.RejectsValues options data e) :
    stored.type.isWritable = false ∨
      ∃ items, data = .values items ∧ ∃ item ∈ items, item.holdsWideFloat = true := by
  obtain ⟨items, hitems, -, hencode⟩ := h
  exact (Datatype.reason_of_rejected he hencode).imp_right fun hwide => ⟨items, hitems, hwide⟩

/-- **What a rejected write leaves.** However it is called, a write fails with
a rejection in two cases. Either it is rejected before anything is asked, and
then nothing has changed. Or values are rejected on the way into their slots,
and then two questions were asked and two handles were lent and given back,
but neither what is stored nor the attribute has changed. That is so only
where something in the type, or a wide float in one of the values, is never
written. -/
theorem WriteCall.rejected_iff {e : Error} (he : e.isRejection = true) (call : WriteCall)
    (attr attr' : Attribute) (s s' : Store) :
    (call.run stored (attr, s) = .error e (attr', s') ↔
      attr' = attr ∧
        (stored.source.preflight call.data = .error e ∧ s' = s ∨
        stored.source.preflight call.data = .ok () ∧
          stored.RejectsValues (call.options attr) call.data e ∧ Opens s ∧ s' = visited s)) ∧
      (stored.RejectsValues (call.options attr) call.data e →
        stored.type.isWritable = false ∨
          ∃ items, call.data = .values items ∧ ∃ item ∈ items, item.holdsWideFloat = true) := by
  refine ⟨?_, RejectsValues.reason he⟩
  rw [WriteCall.run_error_iff, write_rejected he]

/-- A float in a compound whose only member has sixteen bytes. The type is
not looked into before the handles are there. -/
theorem rejected_nestedWideFloat :
    let stored : StoredAttribute :=
      { name := "a", type := .ofMembers [("x", .ofFloat 16)], space := .line 1 }
    let call : WriteCall := .own (.values [.compound [("x", .float .double 0x3ff0000000000000)]])
    let attr : Attribute := .ofSpace stored.space .defaults
    let s : Store := ⟨.ofPath "f.h5", .blank stored.type stored.space⟩
    Error.wideFloatWrite.isRejection = true ∧
      call.run stored (attr, s) = .error .wideFloatWrite (attr, visited s) ∧
      (visited s).file.lent = 2 ∧ (visited s).file.calls = 2 :=
  ⟨rfl, (WriteCall.rejected_iff rfl _ _ _ _ _).1.2
    ⟨rfl, .inr ⟨rfl, ⟨_, rfl, rfl, rfl⟩, by decide, rfl⟩⟩, rfl, rfl⟩

end StoredAttribute

end Memory

end TypedAttr
