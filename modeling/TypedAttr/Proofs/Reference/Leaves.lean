import TypedAttr.Proofs.Backend.Keeps
import TypedAttr.Reference.Resolve
/-!
# What resolving leaves as it is

Resolving a token asks one question after another. A view that every
question keeps, and giving back a handle, too, is the same after a token was
resolved (`leaves_resolve`), and after any query with a cache
(`leavesBackend_display` and its like).
-/

namespace TypedAttr

variable {σ τ α β : Type} {view : σ → β}

namespace ReferenceLookups

/-- Look-ups all of which keep a view. -/
structure Keep (view : σ → β) (lookups : ReferenceLookups σ) : Prop where
  release (kind : HandleKind) (id : HandleId) : Keeps view (lookups.release kind id)
  kind (token : Token) : Keeps view (lookups.kind token)
  fileName (token : Token) : Keeps view (lookups.fileName token)
  objectName (token : Token) : Keeps view (lookups.objectName token)
  attributeName (token : Token) : Keeps view (lookups.attributeName token)
  objectType (token : Token) : Keeps view (lookups.objectType token)
  openObject (token : Token) : Keeps view (lookups.openObject token)
  openRegion (token : Token) : Keeps view (lookups.openRegion token)
  openAttribute (token : Token) : Keeps view (lookups.openAttribute token)
  attributeSpace (id : HandleId) : Keeps view (lookups.attributeSpace id)
  spaceRank (id : HandleId) : Keeps view (lookups.spaceRank id)
  selectionType (id : HandleId) : Keeps view (lookups.selectionType id)
  selectionPoints (id : HandleId) : Keeps view (lookups.selectionPoints id)
  selectionBlocks (id : HandleId) : Keeps view (lookups.selectionBlocks id)

/-- Look-ups on a part keep what the part is not seen in. -/
theorem keep_onPart {get : τ → σ} {put : σ → τ → τ} {view : τ → β}
    (h : ∀ s t, view (put s t) = view t) (lookups : ReferenceLookups σ) :
    (lookups.onPart get put).Keep view where
  release _ _ := .onPart h _
  kind _ := .onPart h _
  fileName _ := .onPart h _
  objectName _ := .onPart h _
  attributeName _ := .onPart h _
  objectType _ := .onPart h _
  openObject _ := .onPart h _
  openRegion _ := .onPart h _
  openAttribute _ := .onPart h _
  attributeSpace _ := .onPart h _
  spaceRank _ := .onPart h _
  selectionType _ := .onPart h _
  selectionPoints _ := .onPart h _
  selectionBlocks _ := .onPart h _

/-! ## Borrowed handles -/

/-- With a handle that can be had, the rest is done before it is given
back. -/
theorem run_borrow_of_ok {lookups : ReferenceLookups σ} {kind : HandleKind}
    {take : Action σ HandleId} {s t : σ} {id : HandleId}
    (hacquire : acquire kind take s = .ok id t) (body : HandleId → Record → StateM σ Record)
    (record : Record) :
    (lookups.borrow kind take body record).run s =
      (((body id record).run t).1,
        stateAfter (lookups.release kind id) ((body id record).run t).2) := by
  have hattempt : (attempt (acquire kind take)).run s = (some id, t) := by
    simp only [StateT.run, attempt, hacquire]
  rw [borrow, StateT.run_bind, hattempt]
  rfl

/-- Without one, the record stays as it is. -/
theorem run_borrow_of_error {lookups : ReferenceLookups σ} {kind : HandleKind}
    {take : Action σ HandleId} {s t : σ} {e : Error}
    (hacquire : acquire kind take s = .error e t) (body : HandleId → Record → StateM σ Record)
    (record : Record) :
    (lookups.borrow kind take body record).run s = (record, t) := by
  have hattempt : (attempt (acquire kind take)).run s = (none, t) := by
    simp only [StateT.run, attempt, hacquire]
  rw [borrow, StateT.run_bind, hattempt]
  rfl

/-! ## Resolving a token -/

/-- A question whose answer goes into a record. -/
theorem leaves_ask {question : Action σ α} (h : Keeps view question) (put : α → Record → Record)
    (record : Record) : Leaves view (ask question put record) := by
  unfold ask
  refine (Leaves.attempt h).bind fun answer => ?_
  cases answer with
  | none => exact .pure _
  | some answer => exact .pure _

theorem leaves_coordinates {question : Action σ (List Nat)} (h : Keeps view question)
    (text : Nat → List Nat → String) (record : Record) :
    Leaves view (coordinates question text record) := by
  unfold coordinates
  refine (Leaves.attempt h).bind fun answer => ?_
  split
  · exact .pure _
  · exact .pure _

variable {lookups : ReferenceLookups σ} (hkeep : lookups.Keep view)
include hkeep

/-- A handle that is given back. -/
theorem leaves_borrow {kind : HandleKind} {take : Action σ HandleId}
    {body : HandleId → Record → StateM σ Record} (htake : Keeps view take)
    (hbody : ∀ id record, Leaves view (body id record)) (record : Record) :
    Leaves view (lookups.borrow kind take body record) := by
  unfold borrow
  refine (Leaves.attempt htake.acquire).bind fun taken => ?_
  cases taken with
  | none => exact .pure _
  | some id =>
    refine (hbody id record).bind fun found => ?_
    exact (Leaves.stateAfter (hkeep.release kind id)).bind fun _ => .pure _

theorem leaves_location (token : Token) (record : Record) :
    Leaves view (lookups.location token record) :=
  (leaves_ask (hkeep.fileName token) _ record).bind fun record =>
    leaves_ask (hkeep.objectName token) _ record

theorem leaves_kindAndAttribute (token : Token) (record : Record) :
    Leaves view (lookups.kindAndAttribute token record) := by
  refine (leaves_ask (hkeep.kind token) _ record).bind fun record => ?_
  split
  · exact leaves_ask (hkeep.attributeName token) _ record
  · exact .pure _

theorem leaves_typeOfObject (token : Token) (record : Record) :
    Leaves view (lookups.typeOfObject token record) :=
  leaves_ask (hkeep.objectType token) _ record

theorem leaves_regionOfSpace (space : HandleId) (record : Record) :
    Leaves view (lookups.regionOfSpace space record) := by
  unfold regionOfSpace
  refine (Leaves.attempt (hkeep.selectionType space)).bind fun selection => ?_
  cases selection with
  | none => exact .pure _
  | some selection =>
    refine (Leaves.attempt (hkeep.spaceRank space)).bind fun rank => ?_
    cases selection with
    | points => exact leaves_coordinates (hkeep.selectionPoints space) _ _
    | hyperslabs => exact leaves_coordinates (hkeep.selectionBlocks space) _ _
    | none | all => exact .pure _

theorem leaves_region (token : Token) (record : Record) :
    Leaves view (lookups.region token record) :=
  leaves_borrow hkeep (hkeep.openObject token)
    (fun _ record => leaves_borrow hkeep (hkeep.openRegion token)
      (leaves_regionOfSpace hkeep) record) record

theorem leaves_rankOfAttribute (token : Token) (record : Record) :
    Leaves view (lookups.rankOfAttribute token record) :=
  leaves_borrow hkeep (hkeep.openAttribute token)
    (fun opened record => leaves_borrow hkeep (hkeep.attributeSpace opened)
      (fun space _ => (Leaves.attempt (hkeep.spaceRank space)).bind fun _ => .pure _) record)
    record

theorem leaves_standardRegion (token : Token) (record : Record) :
    Leaves view (lookups.standardRegion token record) := by
  unfold standardRegion
  have htype := leaves_typeOfObject hkeep token record
  cases record.kind with
  | unknown => exact .pure _
  | objectAddress | object | other => exact htype.bind fun _ => .pure _
  | regionAddress | region => exact htype.bind fun record => leaves_region hkeep token record
  | _ => exact htype.bind fun record => leaves_rankOfAttribute hkeep token _

/-- **Resolving a token** leaves what the look-ups keep. -/
theorem leaves_resolve (flavor : ReferenceFlavor) (token : Token) :
    Leaves view (lookups.resolve flavor token) := by
  unfold resolve
  split
  · exact .pure _
  · refine (leaves_location hkeep token _).bind fun record => ?_
    cases flavor with
    | standard =>
      exact (leaves_kindAndAttribute hkeep token record).bind fun record =>
        leaves_standardRegion hkeep token record
    | region => exact leaves_region hkeep token _
    | object => exact (leaves_typeOfObject hkeep token _).bind fun _ => .pure _

end ReferenceLookups

namespace Resolver

/-- Queries that leave a view of the backend, whatever is cached. -/
def LeavesBackend (view : σ → β) (query : Query σ α) : Prop :=
  ∀ records, Leaves view (query records)

namespace LeavesBackend

theorem pure (a : α) : LeavesBackend view (Pure.pure a : Query σ α) := fun _ => .pure _

theorem bind {γ : Type} {query : Query σ α} {next : α → Query σ γ} (h : LeavesBackend view query)
    (hnext : ∀ a, LeavesBackend view (next a)) : LeavesBackend view (query >>= next) :=
  fun records => (h records).bind fun result => hnext result.1 result.2

/-- What looks at the cache only. -/
theorem modifyGet (f : RecordCache → α × RecordCache) :
    LeavesBackend view (MonadStateOf.modifyGet f : Query σ α) := fun _ => .pure _

theorem get : LeavesBackend view (MonadState.get : Query σ RecordCache) := fun _ => .pure _

theorem lift {computation : StateM σ α} (h : Leaves view computation) :
    LeavesBackend view (liftM computation : Query σ α) := fun _ s => h s

theorem mapM {γ : Type} {f : α → Query σ γ} (h : ∀ a, LeavesBackend view (f a)) (items : List α) :
    LeavesBackend view (items.mapM f) := by
  induction items with
  | nil => exact pure []
  | cons a rest ih =>
    rw [List.mapM_cons]
    exact (h a).bind fun c => ih.bind fun cs => pure (c :: cs)

end LeavesBackend

variable {resolver : Resolver σ} (hkeep : resolver.lookups.Keep view)
include hkeep

theorem leavesBackend_resolveAndKeep (token : Token) :
    LeavesBackend view (resolver.resolveAndKeep token) :=
  (LeavesBackend.lift (ReferenceLookups.leaves_resolve hkeep resolver.flavor token)).bind
    fun _ => (LeavesBackend.modifyGet _).bind fun _ => .pure _

/-- **A record**, cached or not. -/
theorem leavesBackend_record (token : Token) : LeavesBackend view (resolver.record token) := by
  unfold record
  refine (LeavesBackend.modifyGet _).bind fun cached => ?_
  cases cached with
  | none => exact leavesBackend_resolveAndKeep hkeep token
  | some record => exact .pure record

theorem leavesBackend_regionText (token : Token) : LeavesBackend view (resolver.regionText token) :=
  (leavesBackend_record hkeep token).bind fun _ => .pure _

theorem leavesBackend_init (tokens : List Token) : LeavesBackend view (resolver.init tokens) := by
  induction tokens with
  | nil => exact .pure ()
  | cons token rest ih =>
    unfold init
    refine LeavesBackend.get.bind fun records => ?_
    split
    · exact (leavesBackend_resolveAndKeep hkeep token).bind fun _ => ih
    · exact ih

theorem leavesBackend_records (tokens : List Token) :
    LeavesBackend view (resolver.records tokens) :=
  .mapM (leavesBackend_record hkeep) tokens

theorem leavesBackend_display (limit : Nat) (tokens : List Token) :
    LeavesBackend view (resolver.display limit tokens) :=
  (leavesBackend_records hkeep tokens).bind fun _ => .pure _

end Resolver

end TypedAttr
