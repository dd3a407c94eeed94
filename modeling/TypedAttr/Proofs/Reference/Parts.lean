import TypedAttr.Proofs.Backend.Keeps
import TypedAttr.Proofs.Reference.Serving
import TypedAttr.Reference.Resolve
/-!
# Resolving through a part

A backend can be a part of another, as a file is of the store of an
attribute in it. Look-ups on the part, made look-ups on the whole, resolve a
token as they do on the part by itself, and leave the rest of the whole as it
was (`through_resolve`). A resolver that gives every token one record on the
part gives it on the whole, too (`Settled.onPart`).
-/

namespace TypedAttr

variable {σ τ α γ : Type}

/-- A part of a state, by how it is looked at and how it is replaced. -/
structure IsPart (get : τ → σ) (put : σ → τ → τ) : Prop where
  get_put (s : σ) (t : τ) : get (put s t) = s
  put_put (s s' : σ) (t : τ) : put s' (put s t) = put s' t
  put_get (t : τ) : put (get t) t = t

/-- A computation that does to the whole what another does to a part. -/
def Through (get : τ → σ) (put : σ → τ → τ) (whole : StateM τ α) (part : StateM σ α) : Prop :=
  ∀ t, whole.run t = ((part.run (get t)).1, put (part.run (get t)).2 t)

variable {get : τ → σ} {put : σ → τ → τ}

/-- A handle is taken of the part. -/
theorem acquire_onPart (kind : HandleKind) (take : Action σ HandleId) :
    acquire kind (take.onPart get put) = (acquire kind take).onPart get put := by
  funext t
  simp only [acquire, Action.onPart]
  cases take (get t) with
  | error e s => rfl
  | ok id s =>
    cases hvalid : id.isValid <;> simp only [hvalid, if_true, Bool.false_eq_true, if_false]

namespace Through

theorem attempt (action : Action σ α) :
    Through get put (attempt (action.onPart get put)) (attempt action) := by
  intro t
  simp only [StateT.run, TypedAttr.attempt, Action.onPart]
  cases action (get t) <;> rfl

theorem stateAfter (action : Action σ α) :
    Through get put (modify (stateAfter (action.onPart get put)))
      (modify (stateAfter action)) := by
  intro t
  change ((), TypedAttr.stateAfter (action.onPart get put) t) =
    ((), put (TypedAttr.stateAfter action (get t)) t)
  unfold TypedAttr.stateAfter Action.onPart
  cases action (get t) <;> rfl

section IsPart

variable (hpart : IsPart get put)
include hpart

theorem pure (a : α) : Through get put (Pure.pure a) (Pure.pure a) := by
  intro t
  change (a, t) = (a, put (get t) t)
  rw [hpart.put_get]

theorem bind {whole : StateM τ α} {part : StateM σ α} {next : α → StateM τ γ}
    {next' : α → StateM σ γ} (h : Through get put whole part)
    (hnext : ∀ a, Through get put (next a) (next' a)) :
    Through get put (whole >>= next) (part >>= next') := by
  intro t
  rw [StateT.run_bind, StateT.run_bind, h t]
  refine (hnext _ _).trans ?_
  rw [hpart.get_put, hpart.put_put]
  rfl

end IsPart

/-- What the part yields, the whole yields. -/
theorem yields {whole : StateM τ α} {part : StateM σ α} {p q : σ → Prop} {a : α}
    (hpart : IsPart get put) (h : Through get put whole part) (hyields : Yields p q part a) :
    Yields (p ∘ get) (q ∘ get) whole a := by
  intro t ht
  obtain ⟨hvalue, hafter⟩ := hyields (get t) ht
  rw [h t]
  refine ⟨hvalue, ?_⟩
  rw [Function.comp_apply, hpart.get_put]
  exact hafter

end Through

namespace ReferenceLookups

variable (hpart : IsPart get put) (lookups : ReferenceLookups σ)
include hpart

theorem through_ask (question : Action σ α) (change : α → Record → Record) (record : Record) :
    Through get put (ask (question.onPart get put) change record) (ask question change record) :=
  (Through.attempt question).bind hpart fun answer => by
    cases answer <;> exact .pure hpart _

theorem through_coordinates (question : Action σ (List Nat)) (text : Nat → List Nat → String)
    (record : Record) :
    Through get put (coordinates (question.onPart get put) text record)
      (coordinates question text record) :=
  (Through.attempt question).bind hpart fun answer => by
    cases answer with
    | none => exact .pure hpart _
    | some answer => cases record.regionRank <;> exact .pure hpart _

theorem through_borrow (kind : HandleKind) (take : Action σ HandleId)
    {body : HandleId → Record → StateM τ Record} {body' : HandleId → Record → StateM σ Record}
    (hbody : ∀ id record, Through get put (body id record) (body' id record)) (record : Record) :
    Through get put ((lookups.onPart get put).borrow kind (take.onPart get put) body record)
      (lookups.borrow kind take body' record) := by
  unfold borrow
  rw [acquire_onPart]
  refine (Through.attempt _).bind hpart fun taken => ?_
  cases taken with
  | none => exact .pure hpart _
  | some id =>
    refine (hbody id record).bind hpart fun found => ?_
    exact (Through.stateAfter (lookups.release kind id)).bind hpart fun _ => .pure hpart _

theorem through_location (token : Token) (record : Record) :
    Through get put ((lookups.onPart get put).location token record)
      (lookups.location token record) :=
  (through_ask hpart (lookups.fileName token) _ record).bind hpart fun record =>
    through_ask hpart (lookups.objectName token) _ record

theorem through_kindAndAttribute (token : Token) (record : Record) :
    Through get put ((lookups.onPart get put).kindAndAttribute token record)
      (lookups.kindAndAttribute token record) := by
  refine (through_ask hpart (lookups.kind token) _ record).bind hpart fun record => ?_
  split
  · exact through_ask hpart (lookups.attributeName token) _ record
  · exact .pure hpart _

theorem through_typeOfObject (token : Token) (record : Record) :
    Through get put ((lookups.onPart get put).typeOfObject token record)
      (lookups.typeOfObject token record) :=
  through_ask hpart (lookups.objectType token) _ record

theorem through_regionOfSpace (space : HandleId) (record : Record) :
    Through get put ((lookups.onPart get put).regionOfSpace space record)
      (lookups.regionOfSpace space record) := by
  refine (Through.attempt (lookups.selectionType space)).bind hpart fun selection => ?_
  cases selection with
  | none => exact .pure hpart _
  | some selection =>
    refine (Through.attempt (lookups.spaceRank space)).bind hpart fun rank => ?_
    cases selection with
    | points => exact through_coordinates hpart (lookups.selectionPoints space) _ _
    | hyperslabs => exact through_coordinates hpart (lookups.selectionBlocks space) _ _
    | none | all => exact .pure hpart _

theorem through_region (token : Token) (record : Record) :
    Through get put ((lookups.onPart get put).region token record)
      (lookups.region token record) :=
  through_borrow hpart lookups _ (lookups.openObject token)
    (fun _ record => through_borrow hpart lookups _ (lookups.openRegion token)
      (through_regionOfSpace hpart lookups) record) record

theorem through_rankOfAttribute (token : Token) (record : Record) :
    Through get put ((lookups.onPart get put).rankOfAttribute token record)
      (lookups.rankOfAttribute token record) :=
  through_borrow hpart lookups _ (lookups.openAttribute token)
    (fun opened record => through_borrow hpart lookups _ (lookups.attributeSpace opened)
      (fun space _ => (Through.attempt (lookups.spaceRank space)).bind hpart
        fun _ => .pure hpart _) record)
    record

theorem through_standardRegion (token : Token) (record : Record) :
    Through get put ((lookups.onPart get put).standardRegion token record)
      (lookups.standardRegion token record) := by
  have htype := through_typeOfObject hpart lookups token record
  unfold standardRegion
  cases record.kind with
  | unknown => exact .pure hpart _
  | objectAddress | object | other => exact htype.bind hpart fun _ => .pure hpart _
  | regionAddress | region =>
    exact htype.bind hpart fun record => through_region hpart lookups token record
  | _ => exact htype.bind hpart fun record => through_rankOfAttribute hpart lookups token _

/-- **A token is resolved through a part** as it is in the part itself. -/
theorem through_resolve (flavor : ReferenceFlavor) (token : Token) :
    Through get put ((lookups.onPart get put).resolve flavor token)
      (lookups.resolve flavor token) := by
  unfold resolve
  split
  · exact .pure hpart _
  · refine (through_location hpart lookups token _).bind hpart fun record => ?_
    cases flavor with
    | standard =>
      exact (through_kindAndAttribute hpart lookups token record).bind hpart fun record =>
        through_standardRegion hpart lookups token record
    | region => exact through_region hpart lookups token _
    | object => exact (through_typeOfObject hpart lookups token _).bind hpart fun _ => .pure hpart _

end ReferenceLookups

/-- **So every token has the record** that it has in the part. -/
theorem Resolver.Settled.onPart {lookups : ReferenceLookups σ} {flavor : ReferenceFlavor}
    {p : σ → Prop} {expected : Token → Record} (hpart : IsPart get put)
    (h : (Resolver.mk lookups flavor).Settled p expected) :
    (Resolver.mk (lookups.onPart get put) flavor).Settled (p ∘ get) expected where
  resolve token := (ReferenceLookups.through_resolve hpart lookups flavor token).yields hpart
    (h.resolve token)
  token := h.token

end TypedAttr
