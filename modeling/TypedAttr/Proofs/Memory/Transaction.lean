import TypedAttr.Proofs.Data.Payload
import TypedAttr.Proofs.Memory.Store
/-!
# Transactions in memory

What a transaction on an attribute in memory reads and what it leaves
stored. A read that succeeds gives the data in what is stored
(`view_of_read`), and it succeeds if there are data in it and nothing is
made to fail (`read_of_view`). A write that succeeds leaves its payload
(`write_ok`), and any other leaves what was there
(`keepsOnError_write`).
-/

namespace TypedAttr

namespace Memory

/-- What a payload is stored as. -/
def Content.ofPayload : Data.Payload → Content
  | .packed bytes => .packed bytes
  | .varTexts items => .varTexts items

namespace StoredAttribute

variable (stored : StoredAttribute)

/-! ## Reading -/

/-- The data in what is stored, or why there are none. -/
def view (options : ElementOptions) (content : Content) : Except Error Data :=
  let count := stored.space.numElements
  match stored.type with
  | .varText _ =>
    match content with
    | .varTexts items => .ok (.texts (resized "" count items))
    | _ => .error (.readFailed s!"{stored.name}: not a variable-length string")
  | .sequence base _ =>
    match content with
    | .runs items => .ok (.ofRuns base options (resized [] count items))
    | _ => .error (.readFailed s!"{stored.name}: not a variable-length sequence")
  | type =>
    match content with
    | .packed bytes =>
      if bytes.length = count * type.size then .ok (.ofPacked type options count bytes)
      else
        .error (.readFailed
          s!"{stored.name}: stored {bytes.length} bytes, requested {count * type.size}")
    | _ => .error (.readFailed s!"{stored.name}: variable-length data read as fixed-width")

/-- The question that a read asks. -/
def question : String :=
  match stored.type with
  | .varText _ => "read_var_strings"
  | .sequence _ _ => "read_var_len"
  | _ => "read_raw"

variable {options : ElementOptions} {attr memory : HandleId}

/-- **What is read is the data in what is stored**, whatever the type. -/
theorem readWith_eq :
    stored.source.readWith options attr memory =
      access stored.question .readFailed attr memory >>= fun content =>
        Action.ofExcept (stored.view options content) := by
  funext s
  unfold AttributeSource.readWith question view
  cases htype : stored.type with
  | varText | sequence =>
    simp only [source, htype, bind, EStateM.bind, AttributeSource.count]
    cases access _ Error.readFailed attr memory s with
    | error e t => rfl
    | ok content t => cases content <;> rfl
  | _ =>
    simp only [source, htype, bind, EStateM.bind, AttributeSource.count]
    cases access _ Error.readFailed attr memory s with
    | error e t => rfl
    | ok content t =>
      cases content with
      -- the length is looked at before the bytes are handed over
      | varTexts items => rfl
      | runs items => rfl
      | packed bytes =>
        by_cases hlength : bytes.length = stored.space.numElements * stored.type.size
        · rw [htype] at hlength
          simp only [hlength, if_true]
          rfl
        · rw [htype] at hlength
          simp only [hlength, if_false]
          rfl

variable {stored}

/-- A read keeps what is stored. -/
theorem Steady.keeps_read {β : Type} {view : Store → β} (hview : Steady view) :
    Keeps view (stored.source.read options) := by
  refine hview.keeps_withHandles stored fun attr memory => ?_
  rw [readWith_eq]
  exact hview.keeps_access.bind fun _ => .ofExcept _

/-- **A read that succeeds gives the data in what is stored.** -/
theorem view_of_read {s s' : Store} {data : Data}
    (h : stored.source.read options s = .ok data s') :
    stored.view options s.content = .ok data := by
  obtain ⟨attr, memory, t, t', hcontent, hread, -⟩ := stored.withHandles_ok h
  rw [readWith_eq] at hread
  obtain ⟨content, u, haccess, hview⟩ := bind_ok hread
  rw [← hcontent, ← access_ok haccess]
  exact (ofExcept_ok hview).1

/-- **A read succeeds** if there are data in what is stored and nothing is
made to fail. -/
theorem read_of_view {s : Store} {data : Data} (hfaults : s.file.faults = [])
    (hview : stored.view options s.content = .ok data) :
    ∃ s', stored.source.read options s = .ok data s' := by
  obtain ⟨attr, memory, t, ht, hcontent, hrun⟩ := stored.withHandles_of_healthy hfaults
  have hread : stored.source.readWith options attr memory t =
      .ok data { t with file := { t.file with calls := t.file.calls + 1 } } := by
    rw [readWith_eq, bind_of_ok (access_of_inTransaction ht _ _), hcontent, hview]
    rfl
  exact hrun hread

/-! ## Writing -/

/-- Whether a payload has the count of bytes that all elements take. -/
def FitsSpace (stored : StoredAttribute) : Data.Payload → Prop
  | .packed bytes => bytes.length = stored.space.numElements * stored.type.size
  | .varTexts _ => True

/-- Stores a payload, once the handles are there. -/
def store (stored : StoredAttribute) (attr memory : HandleId) :
    Data.Payload → Action Store Unit
  | .packed bytes => stored.source.writeRaw attr memory bytes
  | .varTexts items => stored.source.writeVarTexts attr memory items

/-- A payload that is stored fits, and replaces what was there. -/
theorem store_ok {payload : Data.Payload} {s s' : Store}
    (h : stored.store attr memory payload s = .ok () s') :
    stored.FitsSpace payload ∧ s'.content = .ofPayload payload := by
  cases payload with
  | packed bytes =>
    obtain ⟨content, t, -, hkeep⟩ := bind_ok h
    by_cases hlength : bytes.length = stored.space.numElements * stored.type.size
    · simp only [hlength, if_true] at hkeep
      cases hkeep
      exact ⟨hlength, rfl⟩
    · simp only [hlength, if_false] at hkeep
      cases hkeep
  | varTexts items =>
    obtain ⟨content, t, -, hkeep⟩ := bind_ok h
    cases hkeep
    exact ⟨trivial, rfl⟩

/-- One that is not leaves what was there. -/
theorem keepsOnError_store (payload : Data.Payload) :
    KeepsOnError Store.content (stored.store attr memory payload) := by
  cases payload with
  | packed bytes =>
    refine KeepsOnError.bind steady_content.keeps_access fun content s e s' herror => ?_
    by_cases hlength : bytes.length = stored.space.numElements * stored.type.size
    · simp only [hlength, if_true] at herror
      cases herror
    · simp only [hlength, if_false] at herror
      cases herror
      rfl
  | varTexts items =>
    refine KeepsOnError.bind steady_content.keeps_access fun content s e s' herror => ?_
    cases herror

theorem keeps_faults_store (payload : Data.Payload) :
    Keeps faults (stored.store attr memory payload) := by
  cases payload with
  | packed bytes =>
    refine steady_faults.keeps_access.bind fun content => ?_
    dsimp only
    split
    · exact fun _ => rfl
    · exact .throw _
  | varTexts items => exact steady_faults.keeps_access.bind fun content _ => rfl

variable {data : Data}

/-- Making a payload only asks the file for tokens. -/
theorem Steady.keeps_payload {β : Type} {view : Store → β} (hview : Steady view) :
    Keeps view (stored.source.payload options data) := by
  unfold AttributeSource.payload
  cases data.paths? stored.source.type with
  | none => exact .ofExcept _
  | some paths =>
    refine (Keeps.ofExcept _).bind fun _ => ?_
    refine (Keeps.mapM (fun path => hview.keeps_createReference stored path _) paths).bind ?_
    exact fun tokens => (Keeps.ofExcept _).bind fun bytes => .pure _

theorem writeWith_eq :
    stored.source.writeWith options data attr memory =
      stored.source.payload options data >>= stored.store attr memory := by
  unfold AttributeSource.writeWith
  refine congrArg _ (funext fun payload => ?_)
  cases payload <;> rfl

/-- **A write that succeeds leaves its payload stored.** It is one that data
of its type can have, and no sequences are written. -/
theorem write_ok {s s' : Store} (h : stored.source.write options data s = .ok () s') :
    stored.type.isSequence = false ∧ ∃ payload,
      Data.StoredAs stored.type stored.space.numElements data payload ∧
        stored.FitsSpace payload ∧ s'.content = .ofPayload payload := by
  obtain ⟨_, t, hpreflight, hwrite⟩ := bind_ok h
  obtain ⟨attr, memory, u, u', -, hbody, hcontent⟩ := stored.withHandles_ok hwrite
  rw [writeWith_eq] at hbody
  obtain ⟨payload, v, hpayload, hstore⟩ := bind_ok hbody
  obtain ⟨hfits, hstored⟩ := store_ok hstore
  exact ⟨AttributeSource.isSequence_of_preflight (ofExcept_ok hpreflight).1, payload,
    AttributeSource.payload_ok hpayload, hfits, hcontent.trans hstored⟩

/-- **A write that fails leaves what was stored.** -/
theorem keepsOnError_write : KeepsOnError Store.content (stored.source.write options data) := by
  refine .bind (.ofExcept _) fun _ =>
    steady_content.keepsOnError_withHandles stored fun attr memory => ?_
  rw [writeWith_eq]
  exact .bind steady_content.keeps_payload keepsOnError_store

/-- A write changes no faults. -/
theorem keeps_faults_write : Keeps faults (stored.source.write options data) := by
  refine (Keeps.ofExcept _).bind fun _ =>
    steady_faults.keeps_withHandles stored fun attr memory => ?_
  rw [writeWith_eq]
  exact steady_faults.keeps_payload.bind keeps_faults_store

end StoredAttribute

end Memory

end TypedAttr
