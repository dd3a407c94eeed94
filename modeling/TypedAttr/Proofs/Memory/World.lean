import TypedAttr.Memory.Attribute
import TypedAttr.Proofs.Memory.OrderlyCalls
/-!
# A file that is shared

Any number of attributes and resolvers share a file, which gets new objects
and new tokens in between and may be made to fail at any question. No call
leaves a handle out, none takes one back twice or as something else, and none
asks a question with a handle that is not open (`World.balanced_step`).
-/

namespace TypedAttr

namespace Memory

/-- An attribute of the file: what it is, what is stored of it, and what it
keeps. -/
structure AttributeInUse where
  stored : StoredAttribute
  content : Content
  attr : Attribute

/-- A resolver on the file, with its records. -/
structure ResolverInUse where
  flavor : ReferenceFlavor
  records : RecordCache

/-- A file, and all that shares it. -/
structure World where
  file : File
  attributes : List AttributeInUse := []
  resolvers : List ResolverInUse := []

namespace World

/-- An empty file that nothing shares yet. -/
def ofPath (path : String) : World := { file := .ofPath path }

/-- What can be done next. -/
inductive Step where
  | addObject (path : String) (type : ObjectType) (extents : List Nat)
  | mint (size : Nat) (kind : ReferenceKind) (target : Target)
  | createAttribute (stored : StoredAttribute) (content : Content) (settings : Settings)
  | createResolver (flavor : ReferenceFlavor) (records : RecordCache)
  | fail (name : String)
  | heal (name : String)
  /-- A call of one of the attributes, by its place. -/
  | callAttribute (place : Nat) (call : Attribute.Call)
  /-- A call of one of the resolvers. -/
  | callResolver (place : Nat) (call : Resolver.Call)

/-- The world with an attribute in its place after a call, and the file. -/
def putAttribute (place : Nat) (stored : StoredAttribute) (attr : Attribute) (store : Store)
    (world : World) : World :=
  { world with
    file := store.file
    attributes := world.attributes.set place ⟨stored, store.content, attr⟩ }

/-- The world with a resolver in its place after a call, and the file. -/
def putResolver (place : Nat) (flavor : ReferenceFlavor) (records : RecordCache) (file : File)
    (world : World) : World :=
  { world with file := file, resolvers := world.resolvers.set place ⟨flavor, records⟩ }

/-- **One step more**, whether a call succeeds or fails. -/
def step (world : World) : Step → World
  | .addObject path type extents =>
    { world with file := (world.file.addObject path type extents).2 }
  | .mint size kind target => { world with file := (File.mint size kind target world.file).2 }
  | .createAttribute stored content settings =>
    { world with
      attributes := world.attributes ++ [⟨stored, content, .ofSpace stored.space settings⟩] }
  | .createResolver flavor records =>
    { world with resolvers := world.resolvers ++ [⟨flavor, records⟩] }
  | .fail name => { world with file := world.file.fail name }
  | .heal name => { world with file := world.file.heal name }
  | .callAttribute place call =>
    match world.attributes[place]? with
    | none => world
    | some ⟨stored, content, attr⟩ =>
      let (attr, store) :=
        stateAfter (call.run stored.source StoredAttribute.lookups) (attr, ⟨world.file, content⟩)
      world.putAttribute place stored attr store
  | .callResolver place call =>
    match world.resolvers[place]? with
    | none => world
    | some ⟨flavor, records⟩ =>
      let ((_, records), file) := ((call.run ⟨File.lookups, flavor⟩).run records).run world.file
      world.putResolver place flavor records file

/-- The same step under an observer, with the notes that are taken. -/
def watch (world : World) : Step → World × List Note
  | .callAttribute place call =>
    match world.attributes[place]? with
    | none => (world, [])
    | some ⟨stored, content, attr⟩ =>
      let (attr, store, notes) :=
        stateAfter
          (call.run (watchedSource Store.file stored.source)
            (watchedLookups Store.file StoredAttribute.lookups))
          (attr, ⟨world.file, content⟩, [])
      (world.putAttribute place stored attr store, notes)
  | .callResolver place call =>
    match world.resolvers[place]? with
    | none => (world, [])
    | some ⟨flavor, records⟩ =>
      let ((_, records), file, notes) :=
        ((call.run (watchedResolver id ⟨File.lookups, flavor⟩)).run records).run (world.file, [])
      (world.putResolver place flavor records file, notes)
  | other => (world.step other, [])

/-- Steps one after the other under an observer. -/
def watchAll (world : World) : List Step → World × List Note
  | [] => (world, [])
  | step :: rest =>
    let (next, notes) := world.watch step
    let (last, more) := next.watchAll rest
    (last, notes ++ more)

/-! ## Steps are balanced -/

/-- What happens to the file beside calls uses no handle. -/
theorem balanced_fail (name : String) (file : File) : Balanced file [] (file.fail name) := by
  rw [File.fail]
  split
  · exact .refl file
  · exact .of_asked ⟨rfl, rfl, rfl⟩

/-- **A step is the same under an observer, and balanced.** -/
theorem balanced_watch {world : World} (h : Holding [] world.file) (step : Step) :
    (world.watch step).1 = world.step step ∧
      Balanced world.file (world.watch step).2 (world.step step).file := by
  cases step with
  | addObject | mint | createAttribute | createResolver | heal =>
    exact ⟨rfl, .of_asked ⟨rfl, rfl, rfl⟩⟩
  | fail name => exact ⟨rfl, balanced_fail name world.file⟩
  | callAttribute place call =>
    rw [watch, World.step]
    cases world.attributes[place]? with
    | none => exact ⟨rfl, .refl _⟩
    | some used =>
      obtain ⟨stored, content, attr⟩ := used
      have hcall := orderly_attributeCall stored.reliable_source
        StoredAttribute.reliable_lookups call
      obtain ⟨notes, hbalanced, hrun⟩ := hcall (attr, ⟨world.file, content⟩) [] h
      have hrun' : call.run (watchedSource Store.file stored.source)
          (watchedLookups Store.file StoredAttribute.lookups)
          (attr, ⟨world.file, content⟩, []) = _ := hrun
      have hafter : stateAfter (call.run (watchedSource Store.file stored.source)
          (watchedLookups Store.file StoredAttribute.lookups))
          (attr, ⟨world.file, content⟩, []) =
            (Desk.ofAttribute Store.file).join
              (stateAfter (call.run stored.source StoredAttribute.lookups)
                (attr, ⟨world.file, content⟩)) notes := by
        rw [stateAfter, hrun', stateAfter]
        cases call.run stored.source StoredAttribute.lookups (attr, ⟨world.file, content⟩) <;> rfl
      dsimp only
      rw [hafter]
      exact ⟨rfl, hbalanced⟩
  | callResolver place call =>
    rw [watch, World.step]
    cases world.resolvers[place]? with
    | none => exact ⟨rfl, .refl _⟩
    | some used =>
      obtain ⟨flavor, records⟩ := used
      have hcall : OrderlyQuery id (call.run ⟨File.lookups, flavor⟩)
          (call.run (watchedResolver id ⟨File.lookups, flavor⟩)) :=
        orderly_resolverCall File.reliable_lookups call
      obtain ⟨notes, hbalanced, hrun⟩ := hcall records world.file [] h
      have hrun' : ((call.run (watchedResolver id ⟨File.lookups, flavor⟩)).run records).run
          (world.file, []) = _ := hrun
      dsimp only
      rw [hrun']
      exact ⟨rfl, hbalanced⟩

/-- **So are any steps**, one after the other. -/
theorem balanced_watchAll {world : World} (h : Holding [] world.file) (steps : List Step) :
    (world.watchAll steps).1 = steps.foldl step world ∧
      Balanced world.file (world.watchAll steps).2 (steps.foldl step world).file := by
  induction steps generalizing world with
  | nil => exact ⟨rfl, .refl _⟩
  | cons first rest ih =>
    obtain ⟨hnext, hbalanced⟩ := balanced_watch h first
    have hafter : Holding [] (world.step first).file := h.of_balanced hbalanced
    obtain ⟨hlast, hbalanced'⟩ := ih hafter
    have hwhole : world.watchAll (first :: rest) =
        (((world.step first).watchAll rest).1,
          (world.watch first).2 ++ ((world.step first).watchAll rest).2) := by
      rw [watchAll, ← hnext]
    rw [hwhole, List.foldl_cons]
    exact ⟨hlast, hbalanced.trans hbalanced'⟩

theorem watchAll_append (world : World) (steps more : List Step) :
    (world.watchAll (steps ++ more)).2 =
      (world.watchAll steps).2 ++ ((world.watchAll steps).1.watchAll more).2 := by
  induction steps generalizing world with
  | nil => rfl
  | cons first rest ih =>
    have hrest := ih (world.watch first).1
    change (world.watch first).2 ++ ((world.watch first).1.watchAll (rest ++ more)).2 =
      (world.watch first).2 ++ ((world.watch first).1.watchAll rest).2 ++
        (((world.watch first).1.watchAll rest).1.watchAll more).2
    rw [hrest, List.append_assoc]

/-- Numbers that are lent are never lent again. -/
theorem nodup_numbered (start count : Nat) : (numbered start count).Nodup := by
  rw [numbered, List.Nodup, List.pairwise_map]
  have hnumbers : (List.range' start count).Nodup := List.nodup_range'
  refine List.Pairwise.imp (fun hne hsame => hne ?_) hnumbers
  exact Int.ofNat_inj.1 (HandleId.mk.inj hsame)

/-- **No handle is left out, and none is used that is not open.** Whatever was
done with a file before, one more step does under an observer what it does
without one, and its notes are balanced: the same handles are out as before it,
those that were lent meanwhile were taken back, each once and with its kind,
and every question that the file counted was asked with open handles of its
kinds, so that none was refused. In the whole history no number was lent
twice. -/
theorem balanced_step (path : String) (steps : List Step) (step : Step) :
    let world := steps.foldl World.step (.ofPath path)
    let next := world.step step
    let notes := (world.watch step).2
    let history := ((World.ofPath path).watchAll (steps ++ [step])).2
    (world.watch step).1 = next ∧ Balanced world.file notes next.file ∧ notes <:+ history ∧
      ((Note.loans history).map (·.id)).Nodup := by
  intro world next notes history
  have hstart : Holding [] (World.ofPath path).file :=
    ⟨fun _ hmem => (List.not_mem_nil hmem).elim, fun _ hmem => (List.not_mem_nil hmem).elim⟩
  obtain ⟨hbefore, hsteps⟩ := balanced_watchAll hstart steps
  change ((World.ofPath path).watchAll steps).1 = world at hbefore
  obtain ⟨hnext, hbalanced⟩ := balanced_watch (hstart.of_balanced hsteps) step
  refine ⟨hnext, hbalanced, ?_, ?_⟩
  · refine ⟨((World.ofPath path).watchAll steps).2, ?_⟩
    have hlast : (world.watchAll [step]).2 = notes := List.append_nil _
    rw [← hlast, ← hbefore]
    exact (watchAll_append _ steps [step]).symm
  · obtain ⟨count, -, hids⟩ := (balanced_watchAll hstart (steps ++ [step])).2.lent
    rw [hids]
    exact nodup_numbered _ _

/-- A region whose points cannot be told: both of its handles were lent, and
both came back. -/
theorem balanced_step_region :
    let region : Target := .region ⟨0⟩ (.points [[1, 2]])
    let steps : List Step :=
      [.addObject "/d" .dataset [4, 4], .mint 64 .region region,
        .createResolver .standard (.ofCapacity 0), .fail "selection_points"]
    let token := (File.mint 64 .region region (.ofPath "f.h5")).1
    let world := steps.foldl World.step (.ofPath "f.h5")
    let notes := (world.watch (.callResolver 0 (.record token))).2
    Note.loans notes = [⟨.object, ⟨0⟩⟩, ⟨.region, ⟨1⟩⟩] ∧
      (Note.returns notes).Perm [⟨.object, ⟨0⟩⟩, ⟨.region, ⟨1⟩⟩] ∧ ∀ note ∈ notes, note.Sound := by
  intro region steps token world notes
  have hloans : Note.loans notes = [⟨.object, ⟨0⟩⟩, ⟨.region, ⟨1⟩⟩] := by decide +kernel
  obtain ⟨-, hbalanced, -⟩ := balanced_step "f.h5" steps (.callResolver 0 (.record token))
  exact ⟨hloans, hloans ▸ hbalanced.returned, hbalanced.sound⟩

end World

end Memory

end TypedAttr
