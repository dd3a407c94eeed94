import TypedAttr.Proofs.Attribute.Calls
import TypedAttr.Proofs.Memory.Opening
import TypedAttr.Proofs.Memory.OrderlyCalls
import TypedAttr.Proofs.Memory.Transaction
/-!
# All or nothing

A write can fail at many points, some of them after part of the work was
done: tokens may have been made, and handles were lent. `write_allOrNothing`
says that none of this is seen in the attribute, in what is stored of it, or
in the handles that are out, and that a write that succeeds has stored just
what its data are converted to. It holds in any file, whatever was done with
it before.
-/

namespace TypedAttr

namespace Memory

/-! ## Files with a history -/

namespace File

/-- What can be done with a file. -/
inductive Event where
  | addObject (path : String) (type : ObjectType) (extents : List Nat)
  | mint (size : Nat) (kind : ReferenceKind) (target : Target)
  | fail (name : String)
  | heal (name : String)
  | ask (name : String)
  | lend (handle : OpenHandle)
  /-- A handle is given back, or a number that is of none. -/
  | release (kind : HandleKind) (id : HandleId)

/-- The file after an event, whether a question succeeds or fails. -/
def after (file : File) : Event → File
  | .addObject path type extents => (file.addObject path type extents).2
  | .mint size kind target => (File.mint size kind target file).2
  | .fail name => file.fail name
  | .heal name => file.heal name
  | .ask name => stateAfter (File.enter name) file
  | .lend handle => stateAfter (File.lend handle) file
  | .release kind id => stateAfter (File.release kind id) file

theorem stateAfter_enter (name : String) (file : File) :
    stateAfter (enter name) file = file.counted := by
  rw [stateAfter, enter_eq]
  by_cases hname : name ∈ file.faults
  · rw [if_pos hname]
  · rw [if_neg hname]

/-- The numbers that are out stay below the next one. -/
theorem holding_after {file : File} (h : Holding [] file) (event : Event) :
    Holding [] (file.after event) := by
  cases event with
  | addObject | mint | heal => exact h.of_handles rfl (Nat.le_refl _)
  | fail name =>
    rw [after, File.fail]
    split
    · exact h
    · exact h.of_handles rfl (Nat.le_refl _)
  | ask name =>
    rw [after, stateAfter_enter]
    exact h.of_handles rfl (Nat.le_refl _)
  | lend handle =>
    refine ⟨fun entry hmem => ?_, fun _ hmem => nomatch hmem⟩
    rcases List.mem_cons.1 hmem with rfl | hmem
    · exact Int.ofNat_lt.2 (Nat.lt_succ_self _)
    · have hbelow := h.below entry hmem
      have hnext : (file.after (.lend handle)).lent = file.lent + 1 := rfl
      omega
  | release kind id =>
    rw [after, stateAfter, File.release]
    cases file.checkHandle kind id with
    | error e => exact h
    | ok _ =>
      refine ⟨fun entry hmem => ?_, fun _ hmem => nomatch hmem⟩
      exact h.below entry (List.mem_filter.1 hmem).1

theorem holding_foldl_after {file : File} (h : Holding [] file) (events : List Event) :
    Holding [] (events.foldl after file) := by
  induction events generalizing file with
  | nil => exact h
  | cons event rest ih => exact ih (holding_after h event)

/-- **So they are in any file**, whatever was done with it. -/
theorem holding_history (path : String) (events : List Event) :
    Holding [] (events.foldl after (.ofPath path)) :=
  holding_foldl_after ⟨fun _ hmem => (List.not_mem_nil hmem).elim, fun _ hmem => nomatch hmem⟩
    events

end File

/-! ## Changes that are overlooked -/

/-- An action that does the same after a change of its state. -/
def Overlooks {σ α : Type} (f : σ → σ) (action : Action σ α) : Prop :=
  ∀ s, action (f s) = seenAs f (action s)

namespace Overlooks

variable {σ α β : Type} {f : σ → σ}

theorem pure (a : α) : Overlooks f (Pure.pure a : Action σ α) := fun _ => rfl

theorem throw (e : Error) : Overlooks f (MonadExcept.throw e : Action σ α) := fun _ => rfl

theorem ofExcept (result : Except Error α) :
    Overlooks f (Action.ofExcept result : Action σ α) := by
  cases result with
  | ok a => exact pure a
  | error e => exact throw e

theorem bind {action : Action σ α} {next : α → Action σ β} (h : Overlooks f action)
    (hnext : ∀ a, Overlooks f (next a)) : Overlooks f (action >>= next) := by
  intro s
  have hfirst := h s
  cases haction : action s with
  | ok a t =>
    rw [haction] at hfirst
    rw [bind_of_ok haction, bind_of_ok hfirst]
    exact hnext a t
  | error e t =>
    rw [haction] at hfirst
    rw [bind_of_error haction, bind_of_error hfirst]
    rfl

theorem mapM {g : α → Action σ β} (h : ∀ a, Overlooks f (g a)) (items : List α) :
    Overlooks f (items.mapM g) := by
  induction items with
  | nil => exact pure []
  | cons a rest ih =>
    rw [List.mapM_cons]
    exact (h a).bind fun b => ih.bind fun bs => pure (b :: bs)

end Overlooks

namespace StoredAttribute

variable {stored : StoredAttribute} {options : ElementOptions} {data : Data}

/-! ## What is converted -/

section Handles

variable (handles : List (HandleId × OpenHandle)) (lent asked : Nat)

/-- A file with other handles out, and more questions counted. -/
def fileAmid (file : File) : File :=
  { file with handles := handles, lent := lent, calls := file.calls + asked }

/-- A store in such a file. -/
def storeAmid (s : Store) : Store := { s with file := fileAmid handles lent asked s.file }

theorem overlooks_enter (name : String) :
    Overlooks (fileAmid handles lent asked) (File.enter name) := by
  intro file
  have hcounted : (fileAmid handles lent asked file).counted =
      fileAmid handles lent asked file.counted := by
    simp only [File.counted, fileAmid, Nat.add_right_comm]
  have hfaults : (fileAmid handles lent asked file).faults = file.faults := rfl
  rw [File.enter_eq, File.enter_eq, hfaults, hcounted]
  by_cases hname : name ∈ file.faults
  · rw [if_pos hname, if_pos hname]
    rfl
  · rw [if_neg hname, if_neg hname]
    rfl

theorem overlooks_onFile {α : Type} {action : Action File α}
    (h : Overlooks (fileAmid handles lent asked) action) :
    Overlooks (storeAmid handles lent asked) (onFile action) := by
  intro s
  have hfile : action (storeAmid handles lent asked s).file = _ := h s.file
  rw [StoredAttribute.onFile, Action.onPart, Action.onPart, hfile]
  cases action s.file <;> rfl

/-- A token does not depend on the handles that are out. -/
theorem overlooks_createReference (path : String) (flavor : ReferenceFlavor) :
    Overlooks (storeAmid handles lent asked)
      (stored.source.createReference path flavor) := by
  refine overlooks_onFile _ _ _ (.bind (overlooks_enter _ _ _ _) fun _ file => ?_)
  rw [get_bind, get_bind]
  have hfind : (fileAmid handles lent asked file).find? path = file.find? path := rfl
  rw [hfind]
  cases file.find? path with
  | none => rfl
  | some id => cases flavor <;> rfl

/-- **Nor does what data are converted to.** -/
theorem overlooks_payload :
    Overlooks (storeAmid handles lent asked) (stored.source.payload options data) := by
  unfold AttributeSource.payload
  cases data.paths? stored.source.type with
  | none => exact .ofExcept _
  | some paths =>
    refine (Overlooks.ofExcept _).bind fun _ => ?_
    refine (Overlooks.mapM (fun path => overlooks_createReference _ _ _ path _) paths).bind ?_
    exact fun tokens => (Overlooks.ofExcept _).bind fun bytes => .pure _

end Handles

theorem begun_eq (s : Store) :
    stored.begun s = storeAmid (stored.begun s).file.handles (s.file.lent + 2) 2 s :=
  rfl

/-- A write that opens converts its data with the handles out, which makes
no difference. -/
theorem payload_begun {s u : Store} {payload : Data.Payload}
    (h : stored.source.payload options data (stored.begun s) = .ok payload u) :
    ∃ t, stored.source.payload options data s = .ok payload t ∧
      u = storeAmid (stored.begun s).file.handles (s.file.lent + 2) 2 t := by
  rw [begun_eq, overlooks_payload] at h
  cases hpayload : stored.source.payload options data s with
  | ok payload' t =>
    rw [hpayload] at h
    cases h
    exact ⟨t, rfl, rfl⟩
  | error e t =>
    rw [hpayload] at h
    cases h

/-! ## Writes -/

/-- **The stages of a write that succeeds**: its data are converted, what
comes of that is stored while the handles are out, and they are given back. -/
theorem stages_of_write {s s' : Store} (h : stored.source.write options data s = .ok () s') :
    ∃ payload t u, stored.source.payload options data s = .ok payload t ∧
      stored.store ⟨s.file.lent⟩ ⟨s.file.lent + 1⟩ payload
        (storeAmid (stored.begun s).file.handles (s.file.lent + 2) 2 t) = .ok () u ∧
      s' = stored.ended s u := by
  obtain ⟨_, t, hpreflight, hwrite⟩ := bind_ok h
  obtain ⟨-, rfl⟩ := ofExcept_ok hpreflight
  by_cases hopens : Opens t
  · rw [stored.withHandles_eq hopens, writeWith_eq] at hwrite
    cases hbody : (stored.source.payload options data >>=
        stored.store ⟨t.file.lent⟩ ⟨t.file.lent + 1⟩) (stored.begun t) with
    | error e u =>
      rw [hbody] at hwrite
      cases hwrite
    | ok _ u =>
      rw [hbody] at hwrite
      cases hwrite
      obtain ⟨payload, v, hpayload, hstore⟩ := bind_ok hbody
      obtain ⟨w, hbefore, rfl⟩ := payload_begun hpayload
      exact ⟨payload, w, u, hbefore, hstore, rfl⟩
  · obtain ⟨kind, reason, u, hfails⟩ :=
      stored.withHandles_of_fault hopens (stored.source.writeWith options data)
    rw [hfails] at hwrite
    cases hwrite

/-- **What a write that succeeds has stored** is what its data are converted
to. -/
theorem content_of_write {s s' : Store} (h : stored.source.write options data s = .ok () s') :
    ∃ payload t, stored.source.payload options data s = .ok payload t ∧
      s'.content = .ofPayload payload := by
  obtain ⟨payload, t, u, hpayload, hstore, rfl⟩ := stages_of_write h
  exact ⟨payload, t, hpayload, (stored.content_ended s u).trans (store_ok hstore).2⟩

/-- Within a transaction, what fits is stored. -/
theorem store_of_inTransaction {attr memory : HandleId} {payload : Data.Payload} {s : Store}
    (hs : InTransaction s attr memory) (hfits : stored.FitsSpace payload) :
    ∃ t, stored.store attr memory payload s = .ok () t := by
  cases payload with
  | packed bytes =>
    rw [FitsSpace] at hfits
    refine ⟨⟨{ s.file with calls := s.file.calls + 1 }, .packed bytes⟩, ?_⟩
    refine (bind_of_ok (access_of_inTransaction hs _ _) _).trans ?_
    simp only [hfits, if_true]
    rfl
  | varTexts items => exact ⟨_, bind_of_ok (access_of_inTransaction hs _ _) _⟩

/-- **A write succeeds** if nothing is made to fail, its data are let through,
and what they are converted to fits. -/
theorem write_of_payload {payload : Data.Payload} {s t : Store} (hfaults : s.file.faults = [])
    (hpreflight : stored.source.preflight data = .ok ())
    (hpayload : stored.source.payload options data s = .ok payload t)
    (hfits : stored.FitsSpace payload) :
    ∃ s', stored.source.write options data s = .ok () s' := by
  let amid := storeAmid (stored.begun s).file.handles (s.file.lent + 2) 2
  have hbegun : stored.source.payload options data (stored.begun s) = .ok payload (amid t) := by
    rw [begun_eq, overlooks_payload, hpayload]
    rfl
  -- the handles that were lent are still out once the data are converted
  have hopen := stored.inTransaction_begun hfaults
  have hhealthy : (amid t).file.faults = [] :=
    (steady_faults.keeps_payload.of_ok hpayload).trans hfaults
  obtain ⟨u, hstore⟩ := store_of_inTransaction ⟨hhealthy, hopen.attr, hopen.memory⟩ hfits
  have hopens : Opens s := by simp [Opens, hfaults]
  refine ⟨stored.ended s u, ?_⟩
  rw [AttributeSource.write, hpreflight]
  refine (stored.withHandles_eq hopens _).trans ?_
  rw [writeWith_eq, bind_of_ok hbegun, hstore]
  rfl

/-- A write gives back what it was lent. -/
theorem handles_of_write {s : Store} (h : Holding [] s.file) :
    (stateAfter (stored.source.write options data) s).file.handles = s.file.handles := by
  obtain ⟨notes, hbalanced, -⟩ := orderly_write stored.reliable_source options data s [] h
  exact hbalanced.handles

/-- **All or nothing.** Whatever was done with the file, a write that fails
leaves the attribute, what is stored of it and the handles that are out as
they were. One that succeeds has stored what its data are converted to and has
made the attribute forget what it had read, and nothing else of it. -/
theorem write_allOrNothing (path : String) (events : List File.Event) (stored : StoredAttribute)
    (content : Content) (attr : Attribute) (data : Data) :
    let s : Store := ⟨events.foldl File.after (.ofPath path), content⟩
    match Attribute.write stored.source data (attr, s) with
    | .error _ (attr', s') =>
      attr' = attr ∧ s'.content = s.content ∧ s'.file.handles = s.file.handles
    | .ok _ (attr', s') =>
      attr' = attr.clear ∧ s'.file.handles = s.file.handles ∧
        ∃ payload t, stored.source.payload attr.options data s = .ok payload t ∧
          s'.content = .ofPayload payload := by
  intro s
  have hhandles := @handles_of_write stored attr.options data s (File.holding_history path events)
  rw [Attribute.write_eq]
  rw [stateAfter] at hhandles
  cases hwrite : stored.source.write attr.options data s with
  | error e t =>
    rw [hwrite] at hhandles
    exact ⟨rfl, keepsOnError_write hwrite, hhandles⟩
  | ok _ t =>
    rw [hwrite] at hhandles
    exact ⟨rfl, hhandles, content_of_write hwrite⟩

end StoredAttribute

end Memory

end TypedAttr
