import TypedAttr.Proofs.Attribute.AllOrNothing
import TypedAttr.Proofs.Memory.Description
/-!
# What transactions leave of a file

A transaction changes a file's accounts, and a write that makes tokens adds
those. What a file knows otherwise stays as it is: a read leaves all of it
(`keeps_known_read`), and a write that succeeds leaves what was known when
its data were converted (`known_of_write`).
-/

namespace TypedAttr

namespace Memory

namespace File

theorem blind_known : Blind known := fun _ _ _ _ => rfl

end File

namespace StoredAttribute

variable {α : Type} {stored : StoredAttribute} {options : ElementOptions} {data : Data}

/-- What is known of a store's file. -/
def knownFile (s : Store) : File := s.file.known

/-- What an action leaves of a file is left of it in a store. -/
theorem keeps_known_onFile {action : Action File α} (h : Keeps File.known action) :
    Keeps knownFile (onFile action) := by
  intro s
  have hfile := h s.file
  rw [stateAfter] at hfile
  rw [stateAfter, onFile, Action.onPart]
  cases haction : action s.file <;> rw [haction] at hfile <;> exact hfile

theorem keeps_known_release (kind : HandleKind) (id : HandleId) :
    Keeps knownFile (stored.source.release kind id) :=
  keeps_known_onFile (File.blind_known.keeps_release kind id)

theorem keeps_known_access {name : String} {wrap : String → Error} {attr memory : HandleId} :
    Keeps knownFile (access name wrap attr memory) := by
  rw [access_eq]
  exact (keeps_known_onFile (File.blind_known.keeps_enter name)).bind fun _ =>
    Keeps.get.bind fun _ => .ofExcept _

/-- A transaction leaves what its body leaves. -/
theorem keeps_known_withHandles {body : HandleId → HandleId → Action Store α}
    (hbody : ∀ attr memory, Keeps knownFile (body attr memory)) :
    Keeps knownFile (stored.source.withHandles body) := by
  have hopen : Keeps knownFile stored.source.openAttribute :=
    keeps_known_onFile ((File.blind_known.keeps_enter _).bind fun _ => File.blind_known.keeps_lend _)
  have hnative (attr : HandleId) : Keeps knownFile (stored.source.openNativeType attr) :=
    keeps_known_onFile ((File.blind_known.keeps_enter _).bind fun _ => Keeps.get.bind fun _ =>
      (Keeps.ofExcept _).bind fun _ => File.blind_known.keeps_lend _)
  exact .withHandle keeps_known_release hopen fun attr =>
    .withHandle keeps_known_release (hnative attr) (hbody attr)

/-- **A read leaves all that a file knows.** -/
theorem keeps_known_read : Keeps knownFile (stored.source.read options) := by
  refine keeps_known_withHandles fun attr memory => ?_
  rw [readWith_eq]
  exact keeps_known_access.bind fun _ => .ofExcept _

theorem keeps_known_store {attr memory : HandleId} (payload : Data.Payload) :
    Keeps knownFile (stored.store attr memory payload) := by
  cases payload with
  | packed bytes =>
    refine keeps_known_access.bind fun content => ?_
    dsimp only
    split
    · exact fun _ => rfl
    · exact .throw _
  | varTexts items => exact keeps_known_access.bind fun content _ => rfl

/-- **A write that succeeds** leaves what was known when its data were
converted. -/
theorem known_of_write {s s' : Store} (h : stored.source.write options data s = .ok () s') :
    ∃ payload t, stored.source.payload options data s = .ok payload t ∧
      stored.FitsSpace payload ∧ s'.content = .ofPayload payload ∧
      s'.file.known = t.file.known := by
  obtain ⟨payload, t, u, hpayload, hstore, rfl⟩ := stages_of_write h
  have hended : (stored.ended s u).file.known = u.file.known :=
    (keeps_known_release .attribute _ _).trans (keeps_known_release .datatype _ u)
  -- the handles that are out are no knowledge
  have hstored := (keeps_known_store payload).of_ok hstore
  exact ⟨payload, t, hpayload, (store_ok hstore).1,
    (stored.content_ended s u).trans (store_ok hstore).2, hended.trans hstored⟩

end StoredAttribute

end Memory

end TypedAttr
