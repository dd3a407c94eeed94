import TypedAttr.Proofs.Attribute.Calls
import TypedAttr.Proofs.Memory.Watched
import TypedAttr.Proofs.Reference.Serving
/-!
# Calls are orderly

Resolving a token, a transaction, and every call of an attribute do under an
observer what they do without one, and the notes that are taken meanwhile are
balanced: each is put together from questions that are, and holds handles only
in between.
-/

namespace TypedAttr

namespace Memory

variable {σ α : Type} {file : σ → File} {held : List HeldHandle}

/-! ## Resolving tokens -/

theorem covers_nil (held : List HeldHandle) : Covers held [] := fun _ h => by cases h

/-- A handle that is held may be given where its kind is asked for. -/
theorem covers_singleton {id : HandleId} {kind : HandleKind} {kinds : List HandleKind}
    (hkind : kind ∈ kinds) (hheld : ⟨kind, id⟩ ∈ held) : Covers held [(id, kinds)] := by
  intro pair hpair
  rw [List.mem_singleton.1 hpair]
  exact ⟨_, hheld, rfl, hkind⟩

/-- A question about a handle that is held, which is of one of the kinds that
it is for. -/
theorem Quiet.orderly_of_held {action : Action σ α} {id : HandleId} {kind : HandleKind}
    {kinds : List HandleKind} (h : Quiet file 1 [⟨kind, id⟩] action) (hheld : ⟨kind, id⟩ ∈ held)
    (hkind : kind ∈ kinds) :
    Orderly (.ofFile file) held action (watchQuestion file [(id, kinds)] action) := by
  have hsubset : [⟨kind, id⟩] ⊆ held := fun other hmem => List.mem_singleton.1 hmem ▸ hheld
  exact (h.mono hsubset).orderly (covers_singleton hkind hheld)

theorem orderly_ask {question : Action σ α} {question' : Action (σ × List Note) α}
    (h : Orderly (.ofFile file) held question question') (put : α → Record → Record)
    (record : Record) :
    OrderlyM file held (ReferenceLookups.ask question put record)
      (ReferenceLookups.ask question' put record) := by
  unfold ReferenceLookups.ask
  refine (OrderlyM.attempt h).bind fun answer => ?_
  cases answer with
  | none => exact .pure _
  | some answer => exact .pure _

theorem orderly_coordinates {question : Action σ (List Nat)}
    {question' : Action (σ × List Note) (List Nat)}
    (h : Orderly (.ofFile file) held question question') (text : Nat → List Nat → String)
    (record : Record) :
    OrderlyM file held (ReferenceLookups.coordinates question text record)
      (ReferenceLookups.coordinates question' text record) := by
  unfold ReferenceLookups.coordinates
  refine (OrderlyM.attempt h).bind fun answer => ?_
  split <;> exact .pure _

section Lookups

variable {lookups : ReferenceLookups σ} (h : ReliableLookups file lookups)
include h

theorem orderly_location (token : Token) (record : Record) :
    OrderlyM file [] (lookups.location token record)
      ((watchedLookups file lookups).location token record) :=
  (orderly_ask ((h.fileName token).orderly (covers_nil _)) _ record).bind fun record =>
    orderly_ask ((h.objectName token).orderly (covers_nil _)) _ record

theorem orderly_kindAndAttribute (token : Token) (record : Record) :
    OrderlyM file [] (lookups.kindAndAttribute token record)
      ((watchedLookups file lookups).kindAndAttribute token record) := by
  refine (orderly_ask ((h.kind token).orderly (covers_nil _)) _ record).bind fun record => ?_
  split
  · exact orderly_ask ((h.attributeName token).orderly (covers_nil _)) _ record
  · exact .pure _

theorem orderly_typeOfObject (token : Token) (record : Record) :
    OrderlyM file [] (lookups.typeOfObject token record)
      ((watchedLookups file lookups).typeOfObject token record) :=
  orderly_ask ((h.objectType token).orderly (covers_nil _)) _ record

/-- A region's dataspace is asked while it is held. -/
theorem orderly_regionOfSpace {space : HandleId} (hheld : ⟨.region, space⟩ ∈ held)
    (record : Record) :
    OrderlyM file held (lookups.regionOfSpace space record)
      ((watchedLookups file lookups).regionOfSpace space record) := by
  have hkind : HandleKind.region ∈ spaceKinds := List.mem_cons_self
  have hregion : HandleKind.region ∈ [HandleKind.region] := List.mem_cons_self
  have htype := (h.selectionType space).orderly_of_held hheld hkind
  have hrank := (h.spaceRank hkind space).orderly_of_held hheld hkind
  have hpoints := (h.selectionPoints space).orderly_of_held hheld hregion
  have hblocks := (h.selectionBlocks space).orderly_of_held hheld hregion
  unfold ReferenceLookups.regionOfSpace
  refine (OrderlyM.attempt htype).bind fun selection => ?_
  cases selection with
  | none => exact .pure _
  | some selection =>
    refine (OrderlyM.attempt hrank).bind fun rank => ?_
    cases selection with
    | points => exact orderly_coordinates hpoints _ _
    | hyperslabs => exact orderly_coordinates hblocks _ _
    | none | all => exact .pure _

theorem orderly_region (token : Token) (record : Record) :
    OrderlyM file [] (lookups.region token record)
      ((watchedLookups file lookups).region token record) := by
  refine OrderlyM.borrow h.release rfl (h.openObject token) (covers_nil _) record fun id => ?_
  refine OrderlyM.borrow h.release rfl ((h.openRegion token).mono (List.nil_subset _))
    (covers_nil _) record fun space => ?_
  exact orderly_regionOfSpace h (by simp) record

theorem orderly_rankOfAttribute (token : Token) (record : Record) :
    OrderlyM file [] (lookups.rankOfAttribute token record)
      ((watchedLookups file lookups).rankOfAttribute token record) := by
  refine OrderlyM.borrow h.release rfl (h.openAttribute token) (covers_nil _) record fun id => ?_
  have hattr : (⟨.attribute, id⟩ : HeldHandle) ∈ [⟨.attribute, id⟩] := List.mem_singleton.2 rfl
  refine OrderlyM.borrow h.release rfl (h.attributeSpace id)
    (covers_singleton (by simp) hattr) record fun space => ?_
  have hspace : (⟨.dataspace, space⟩ : HeldHandle) ∈ [⟨.dataspace, space⟩, ⟨.attribute, id⟩] :=
    List.mem_cons_self
  have hkind : HandleKind.dataspace ∈ spaceKinds := by simp [spaceKinds]
  have hrank := (h.spaceRank hkind space).orderly_of_held hspace hkind
  exact (OrderlyM.attempt hrank).bind fun _ => .pure _

theorem orderly_standardRegion (token : Token) (record : Record) :
    OrderlyM file [] (lookups.standardRegion token record)
      ((watchedLookups file lookups).standardRegion token record) := by
  unfold ReferenceLookups.standardRegion
  have htype := orderly_typeOfObject h token record
  cases record.kind with
  | unknown => exact .pure _
  | objectAddress | object | other => exact htype.bind fun _ => .pure _
  | regionAddress | region => exact htype.bind fun record => orderly_region h token record
  | _ => exact htype.bind fun record => orderly_rankOfAttribute h token _

/-- **Resolving a token is orderly.** -/
theorem orderly_resolve (flavor : ReferenceFlavor) (token : Token) :
    OrderlyM file [] (lookups.resolve flavor token)
      ((watchedLookups file lookups).resolve flavor token) := by
  unfold ReferenceLookups.resolve
  split
  · exact .pure _
  · refine (orderly_location h token _).bind fun record => ?_
    cases flavor with
    | standard =>
      exact (orderly_kindAndAttribute h token record).bind fun record =>
        orderly_standardRegion h token record
    | region => exact orderly_region h token _
    | object => exact (orderly_typeOfObject h token _).bind fun _ => .pure _

end Lookups

/-! ## Queries -/

section Queries

variable {γ : Type}

/-- A query that is orderly whatever is cached. -/
def OrderlyQuery (file : σ → File) (plain : Resolver.Query σ α)
    (watched : Resolver.Query (σ × List Note) α) : Prop :=
  ∀ cache, OrderlyM file [] (plain cache) (watched cache)

namespace OrderlyQuery

theorem pure (a : α) : OrderlyQuery file (Pure.pure a) (Pure.pure a) := fun _ => .pure _

theorem bind {plain : Resolver.Query σ α} {watched : Resolver.Query (σ × List Note) α}
    {next : α → Resolver.Query σ γ} {next' : α → Resolver.Query (σ × List Note) γ}
    (h : OrderlyQuery file plain watched)
    (hnext : ∀ a, OrderlyQuery file (next a) (next' a)) :
    OrderlyQuery file (plain >>= next) (watched >>= next') :=
  fun cache => (h cache).bind fun result => hnext result.1 result.2

/-- What looks at the cache only. -/
theorem modifyGet (f : RecordCache → α × RecordCache) :
    OrderlyQuery file (MonadStateOf.modifyGet f) (MonadStateOf.modifyGet f) := fun _ => .pure _

theorem get : OrderlyQuery file MonadState.get MonadState.get := fun _ => .pure _

theorem lift {plain : StateM σ α} {watched : StateM (σ × List Note) α}
    (h : OrderlyM file [] plain watched) : OrderlyQuery file (liftM plain) (liftM watched) := by
  intro cache s notes hs
  obtain ⟨more, hbalanced, hrun⟩ := h s notes hs
  let keep (result : α × (σ × List Note)) := ((result.1, cache), result.2)
  exact ⟨more, hbalanced, congrArg keep hrun⟩

theorem mapM {f : α → Resolver.Query σ γ} {f' : α → Resolver.Query (σ × List Note) γ}
    (h : ∀ a, OrderlyQuery file (f a) (f' a)) (items : List α) :
    OrderlyQuery file (items.mapM f) (items.mapM f') := by
  induction items with
  | nil => exact pure []
  | cons a rest ih =>
    rw [List.mapM_cons, List.mapM_cons]
    exact (h a).bind fun c => ih.bind fun cs => pure (c :: cs)

end OrderlyQuery

/-- A resolver under an observer. -/
def watchedResolver (file : σ → File) (resolver : Resolver σ) : Resolver (σ × List Note) :=
  ⟨watchedLookups file resolver.lookups, resolver.flavor⟩

variable {resolver : Resolver σ} (h : ReliableLookups file resolver.lookups)
include h

theorem orderly_resolveAndKeep (token : Token) :
    OrderlyQuery file (resolver.resolveAndKeep token)
      ((watchedResolver file resolver).resolveAndKeep token) :=
  (OrderlyQuery.lift (orderly_resolve h resolver.flavor token)).bind fun _ =>
    (OrderlyQuery.modifyGet _).bind fun _ => .pure _

theorem orderly_record (token : Token) :
    OrderlyQuery file (resolver.record token) ((watchedResolver file resolver).record token) := by
  unfold Resolver.record
  refine (OrderlyQuery.modifyGet _).bind fun cached => ?_
  cases cached with
  | none => exact orderly_resolveAndKeep h token
  | some record => exact .pure record

theorem orderly_init (tokens : List Token) :
    OrderlyQuery file (resolver.init tokens) ((watchedResolver file resolver).init tokens) := by
  induction tokens with
  | nil => exact .pure ()
  | cons token rest ih =>
    unfold Resolver.init
    refine OrderlyQuery.get.bind fun records => ?_
    split
    · exact (orderly_resolveAndKeep h token).bind fun _ => ih
    · exact ih

theorem orderly_records (tokens : List Token) :
    OrderlyQuery file (resolver.records tokens)
      ((watchedResolver file resolver).records tokens) :=
  .mapM (orderly_record h) tokens

theorem orderly_display (limit : Nat) (tokens : List Token) :
    OrderlyQuery file (resolver.display limit tokens)
      ((watchedResolver file resolver).display limit tokens) :=
  (orderly_records h tokens).bind fun _ => .pure _

/-- **A call of a resolver is orderly.** -/
theorem orderly_resolverCall (call : Resolver.Call) :
    OrderlyQuery file (call.run resolver) (call.run (watchedResolver file resolver)) := by
  cases call with
  | record token => exact (orderly_record h token).bind fun _ => .pure _
  | regionText token =>
    exact ((orderly_record h token).bind fun _ => .pure _).bind fun _ => .pure _
  | init tokens => exact (orderly_init h tokens).bind fun _ => .pure _
  | display limit tokens => exact (orderly_display h limit tokens).bind fun _ => .pure _

end Queries

/-! ## Transactions -/

section Transactions

variable {source : AttributeSource σ} (h : ReliableSource file source)
include h

/-- What is done in a transaction is done with both handles held. -/
theorem orderly_withHandles {body : HandleId → HandleId → Action σ α}
    {body' : HandleId → HandleId → Action (σ × List Note) α}
    (hbody : ∀ attr memory, Orderly (.ofFile file) [⟨.datatype, memory⟩, ⟨.attribute, attr⟩]
      (body attr memory) (body' attr memory)) :
    Orderly (.ofFile file) [] (source.withHandles body)
      ((watchedSource file source).withHandles body') := by
  refine Orderly.withHandle h.release h.openAttribute (covers_nil _) fun attr => ?_
  have hattr : (⟨.attribute, attr⟩ : HeldHandle) ∈ [⟨.attribute, attr⟩] :=
    List.mem_singleton.2 rfl
  exact Orderly.withHandle h.release (h.openNativeType attr) (covers_singleton (by simp) hattr)
    fun memory => hbody attr memory

omit h in
theorem covers_ofTransaction (attr memory : HandleId) :
    Covers [⟨.datatype, memory⟩, ⟨.attribute, attr⟩] (ofTransaction attr memory) := by
  intro pair hpair
  simp only [ofTransaction, List.mem_cons, List.not_mem_nil, or_false] at hpair
  rcases hpair with rfl | rfl
  · exact ⟨⟨.attribute, attr⟩, by simp⟩
  · exact ⟨⟨.datatype, memory⟩, by simp⟩

theorem orderly_read (options : ElementOptions) :
    Orderly (.ofFile file) [] (source.read options) ((watchedSource file source).read options) := by
  refine orderly_withHandles h fun attr memory => ?_
  have hcovers := covers_ofTransaction attr memory
  have htype' : (watchedSource file source).type = source.type := rfl
  unfold AttributeSource.readWith
  rw [htype']
  cases source.type with
  | varText traits =>
    exact ((h.readVarTexts attr memory source.count).orderly hcovers).bind fun _ => .pure _
  | sequence base traits =>
    exact ((h.readSequences attr memory source.count).orderly hcovers).bind fun _ => .pure _
  | _ =>
    dsimp only
    exact ((h.readRaw attr memory _).orderly hcovers).bind fun _ => .pure _

/-- Making a payload only asks for tokens. -/
theorem orderly_payload (options : ElementOptions) (data : Data) (attr memory : HandleId) :
    Orderly (.ofFile file) [⟨.datatype, memory⟩, ⟨.attribute, attr⟩]
      (source.payload options data) ((watchedSource file source).payload options data) := by
  have htype' : (watchedSource file source).type = source.type := rfl
  unfold AttributeSource.payload
  rw [htype']
  cases data.paths? source.type with
  | none => exact .ofExcept _
  | some paths =>
    refine (Orderly.ofExcept _).bind fun _ => ?_
    have htoken (path : String) :=
      ((h.createReference path (source.type.flavor?.getD .standard)).mono
        (List.nil_subset [⟨.datatype, memory⟩, ⟨.attribute, attr⟩])).orderly (covers_nil _)
    exact (Orderly.mapM htoken paths).bind fun tokens =>
      (Orderly.ofExcept _).bind fun bytes => .pure _

theorem orderly_write (options : ElementOptions) (data : Data) :
    Orderly (.ofFile file) [] (source.write options data)
      ((watchedSource file source).write options data) := by
  refine (Orderly.ofExcept _).bind fun _ => orderly_withHandles h fun attr memory => ?_
  have hcovers := covers_ofTransaction attr memory
  refine (orderly_payload h options data attr memory).bind fun payload => ?_
  cases payload with
  | packed bytes => exact (h.writeRaw attr memory bytes).orderly hcovers
  | varTexts items => exact (h.writeVarTexts attr memory items).orderly hcovers

/-- **A transaction is orderly**, whether it reads or writes. -/
theorem orderly_perform (options : ElementOptions) (data : Option Data) :
    Orderly (.ofFile file) [] (source.perform options data)
      ((watchedSource file source).perform options data) := by
  cases data with
  | none => exact (orderly_read h options).bind fun _ => .pure _
  | some data => exact (orderly_write h options data).bind fun _ => .pure _

end Transactions

/-! ## Calls of attributes -/

section Attributes

/-- Notes are kept beside the backend of an attribute. -/
def Desk.ofAttribute (file : σ → File) : Desk (Attribute × σ) (Attribute × (σ × List Note)) where
  file state := file state.2
  join state notes := (state.1, state.2, notes)

theorem Orderly.onBackend {plain : Action σ α} {watched : Action (σ × List Note) α}
    (h : Orderly (.ofFile file) [] plain watched) :
    Orderly (.ofAttribute file) [] (Attribute.onBackend plain) (Attribute.onBackend watched) := by
  rintro ⟨attr, s⟩ notes hs
  obtain ⟨more, hbalanced, hrun⟩ := h s notes hs
  have hrun' : watched (s, notes) = _ := hrun
  have hwatched : Attribute.onBackend watched (attr, (s, notes)) = _ :=
    Attribute.onBackend_eq watched
  rw [hrun'] at hwatched
  rw [stateAfter] at hbalanced
  refine ⟨more, ?_⟩
  rw [stateAfter, Attribute.onBackend_eq]
  cases hplain : plain s with
  | ok a t =>
    rw [hplain] at hbalanced hwatched
    exact ⟨hbalanced, hwatched⟩
  | error e t =>
    rw [hplain] at hbalanced hwatched
    exact ⟨hbalanced, hwatched⟩

/-- What looks at the attribute only. -/
theorem orderly_self :
    Orderly (.ofAttribute file) [] (Attribute.self : Attribute.Use σ Attribute) Attribute.self :=
  fun _ notes _ => ⟨[], .refl _, by rw [List.append_nil]; rfl⟩

theorem orderly_change (f : Attribute → Attribute) :
    Orderly (.ofAttribute file) [] (Attribute.change f : Attribute.Use σ Unit)
      (Attribute.change f) :=
  fun _ notes _ => ⟨[], .refl _, by rw [List.append_nil]; rfl⟩

section Source

variable {source : AttributeSource σ} (h : ReliableSource file source)
include h

theorem orderly_cachedRead :
    Orderly (.ofAttribute file) [] (Attribute.read source)
      (Attribute.read (watchedSource file source)) := by
  unfold Attribute.read
  refine orderly_self.bind fun attr => ?_
  cases attr.data with
  | some data => exact .pure _
  | none =>
    refine orderly_self.bind fun attr => (orderly_read h attr.options).onBackend.bind fun data => ?_
    exact (orderly_change _).bind fun _ => .pure _

theorem orderly_referenceTokens :
    Orderly (.ofAttribute file) [] (Attribute.referenceTokens source)
      (Attribute.referenceTokens (watchedSource file source)) := by
  unfold Attribute.referenceTokens
  refine (orderly_cachedRead h).bind fun data => ?_
  cases data.tokens? with
  | none => exact .throw _
  | some tokens => exact .pure tokens

end Source

/-- A question about tokens, with the records that are kept. -/
theorem orderly_resolving (source : AttributeSource σ) {lookups : ReferenceLookups σ}
    {query : Resolver σ → Resolver.Query σ α}
    {query' : Resolver (σ × List Note) → Resolver.Query (σ × List Note) α}
    (h : ∀ flavor, OrderlyQuery file (query ⟨lookups, flavor⟩)
      (query' (watchedResolver file ⟨lookups, flavor⟩))) :
    Orderly (.ofAttribute file) [] (Attribute.resolving source lookups query)
      (Attribute.resolving (watchedSource file source) (watchedLookups file lookups) query') := by
  rintro ⟨attr, s⟩ notes hs
  have htype' : (watchedSource file source).type = source.type := rfl
  change ∃ more, Balanced (file s) more _ ∧
    Attribute.resolving _ _ query' (attr, (s, notes)) = _
  unfold stateAfter Attribute.resolving
  rw [htype']
  cases source.type.flavor? with
  | none => exact ⟨[], .refl _, by rw [List.append_nil]; rfl⟩
  | some flavor =>
    obtain ⟨more, hbalanced, hrun⟩ := h flavor attr.records s notes hs
    have hrun' : query' ⟨watchedLookups file lookups, flavor⟩ attr.records (s, notes) = _ := hrun
    refine ⟨more, hbalanced, ?_⟩
    dsimp only
    rw [hrun']
    rfl

end Attributes

end Memory

namespace Attribute

/-- What a user calls of an attribute: its methods, and a transaction past it
with options of its own. -/
inductive Call where
  | read
  | readSelection
  | write (data : Data)
  | perform (options : ElementOptions) (data : Option Data)
  | setSelection (selection : Selection)
  | selectMembers (members : MemberSelection)
  | clear
  | ask (call : Resolver.Call)
  | referenceTokens
  | referenceRecords
  | displayReferences

/-- A call, of which only what it leaves behind matters here. -/
def Call.run {σ : Type} (source : AttributeSource σ) (lookups : ReferenceLookups σ) :
    Call → Use σ Unit
  | .read => do let _ ← Attribute.read source
  | .readSelection => do let _ ← Attribute.readSelection source
  | .write data => Attribute.write source data
  | .perform options data => do let _ ← onBackend (source.perform options data)
  | .setSelection selection => change (Attribute.setSelection selection)
  | .selectMembers members => change (Attribute.selectMembers members)
  | .clear => change Attribute.clear
  | .ask call => do let _ ← resolving source lookups fun resolver => call.run resolver
  | .referenceTokens => do let _ ← Attribute.referenceTokens source
  | .referenceRecords => do let _ ← Attribute.referenceRecords source lookups
  | .displayReferences => do let _ ← Attribute.displayReferences source lookups

end Attribute

namespace Memory

section AttributeCalls

variable {source : AttributeSource σ} {lookups : ReferenceLookups σ}

/-- **A call of an attribute is orderly.** -/
theorem orderly_attributeCall (hsource : ReliableSource file source)
    (hlookups : ReliableLookups file lookups) (call : Attribute.Call) :
    Orderly (.ofAttribute file) [] (call.run source lookups)
      (call.run (watchedSource file source) (watchedLookups file lookups)) := by
  cases call with
  | read => exact (orderly_cachedRead hsource).bind fun _ => .pure ()
  | readSelection =>
    refine Orderly.bind ?_ fun _ => .pure ()
    exact (orderly_cachedRead hsource).bind fun data => orderly_self.bind fun attr => .pure _
  | write data =>
    refine orderly_self.bind fun attr => ?_
    exact (orderly_write hsource attr.options data).onBackend.bind fun _ => orderly_change _
  | perform options data =>
    exact (orderly_perform hsource options data).onBackend.bind fun _ => .pure ()
  | setSelection selection => exact orderly_change _
  | selectMembers members => exact orderly_change _
  | clear => exact orderly_change _
  | ask call =>
    refine Orderly.bind (orderly_resolving source fun flavor => ?_) fun _ => .pure ()
    exact orderly_resolverCall hlookups call
  | referenceTokens => exact (orderly_referenceTokens hsource).bind fun _ => .pure ()
  | referenceRecords =>
    refine Orderly.bind ?_ fun _ => .pure ()
    refine (orderly_referenceTokens hsource).bind fun tokens => ?_
    refine orderly_resolving source fun flavor => ?_
    exact (orderly_init hlookups tokens).bind fun _ => orderly_records hlookups tokens
  | displayReferences =>
    refine Orderly.bind ?_ fun _ => .pure ()
    refine (orderly_referenceTokens hsource).bind fun tokens => orderly_self.bind fun attr => ?_
    exact orderly_resolving source fun flavor => orderly_display hlookups _ tokens

end AttributeCalls

end Memory

end TypedAttr
