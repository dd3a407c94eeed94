import TypedAttr.Proofs.Attribute.Calls
import TypedAttr.Proofs.Memory.Transaction
/-!
# What stays readable

An attribute that was created blank can be read after any writes, with one
exception. Packed bytes and values are stored without a look at the type, and
text of any length that was written in that form is not found again, until
texts are written. `Kept` says what can be stored after a write, and that
this is the only way to lose it.
-/

namespace TypedAttr

namespace Memory

namespace StoredAttribute

variable (stored : StoredAttribute)

/-! ## Contents of the right kind -/

/-- Whether content is of the type's kind, for as many elements as there
are. -/
def Holds (stored : StoredAttribute) : Content → Prop
  | .varTexts items => stored.type.isVarText = true ∧ items.length = stored.space.numElements
  | .runs items => stored.type.isSequence = true ∧ items.length = stored.space.numElements
  | .packed bytes =>
    stored.type.isVarText = false ∧ stored.type.isSequence = false ∧
      bytes.length = stored.space.numElements * stored.type.size

theorem holds_blank : stored.Holds (.blank stored.type stored.space) := by
  unfold Content.blank
  cases hvar : stored.type.isVarText with
  | true => exact ⟨hvar, List.length_replicate⟩
  | false =>
    cases hsequence : stored.type.isSequence with
    | true => exact ⟨hsequence, List.length_replicate⟩
    | false => exact ⟨hvar, hsequence, Bytes.length_zeros _⟩

variable {stored}

/-- There are data in content of the right kind. -/
theorem exists_view_of_holds {content : Content} (h : stored.Holds content)
    (options : ElementOptions) : ∃ data, stored.view options content = .ok data := by
  unfold view
  cases content with
  | varTexts items =>
    cases htype : stored.type with
    | varText traits => exact ⟨_, rfl⟩
    | _ =>
      have hvar := h.1
      rw [htype] at hvar
      cases hvar
  | runs items =>
    cases htype : stored.type with
    | sequence base traits => exact ⟨_, rfl⟩
    | _ =>
      have hsequence := h.1
      rw [htype] at hsequence
      cases hsequence
  | packed bytes =>
    obtain ⟨hvar, hsequence, hlength⟩ := h
    cases htype : stored.type with
    | varText | sequence => simp [htype, Datatype.isVarText, Datatype.isSequence] at hvar hsequence
    | _ =>
      rw [htype] at hlength
      exact ⟨_, if_pos hlength⟩

/-- There are none in packed bytes that stand for text of any length. -/
theorem view_packed_of_varText {data : Data} {bytes : Bytes} (htype : stored.type.isVarText = true)
    (options : ElementOptions) : stored.view options (.packed bytes) ≠ .ok data := by
  unfold view
  cases hstored : stored.type with
  | varText traits => exact fun h => by cases h
  | _ =>
    rw [hstored] at htype
    cases htype

/-- Whether the data that were stored last, if any were, are of the form that
text of any length is found in again. -/
def TextsLast (stored : StoredAttribute) (last : Option Data) : Prop :=
  stored.type.isVarText = true → ∀ data ∈ last, data.isTexts = true

/-- What can be stored, by the data of the last write: content of the right
kind, or packed bytes in the place of texts. -/
inductive Kept (stored : StoredAttribute) : Option Data → Content → Prop
  | intact {last : Option Data} {content : Content} (hcontent : stored.Holds content)
    (hlast : stored.TextsLast last) : Kept stored last content
  | lost {data : Data} (bytes : Bytes) (htype : stored.type.isVarText = true)
    (hdata : data.isTexts = false) : Kept stored (some data) (.packed bytes)

theorem Kept.holds_iff {last : Option Data} {content : Content} (h : Kept stored last content) :
    stored.Holds content ↔ stored.TextsLast last := by
  cases h with
  | intact hcontent hlast => exact ⟨fun _ => hlast, fun _ => hcontent⟩
  | @lost data bytes htype hdata =>
    constructor
    · rintro ⟨hvar, -, -⟩
      exact absurd (htype.symm.trans hvar) (by decide)
    · intro hlast
      exact absurd (hdata.symm.trans (hlast htype data rfl)) (by decide)

theorem Kept.exists_view_iff {last : Option Data} {content : Content}
    (h : Kept stored last content) (options : ElementOptions) :
    (∃ data, stored.view options content = .ok data) ↔ stored.TextsLast last := by
  rw [← h.holds_iff]
  refine ⟨fun ⟨data, hview⟩ => ?_, fun hcontent => exists_view_of_holds hcontent options⟩
  cases h with
  | intact hcontent hlast => exact hcontent
  | lost bytes htype hdata => exact absurd hview (view_packed_of_varText htype options)

/-- **A write keeps to that**, whatever it is given. -/
theorem kept_of_write {options : ElementOptions} {data : Data} {s s' : Store}
    (h : stored.source.write options data s = .ok () s') : Kept stored (some data) s'.content := by
  obtain ⟨hsequence, payload, hstored, hfits, hcontent⟩ := write_ok h
  rw [hcontent]
  cases hstored with
  | texts items htype hcount =>
    refine .intact ⟨htype, hcount⟩ fun _ data hdata => ?_
    cases hdata
    rfl
  | packed bytes hdata =>
    cases htype : stored.type.isVarText with
    -- the bytes have the length of the texts' slots, and so they were taken
    | true => exact .lost bytes htype (hdata htype)
    | false =>
      refine .intact ⟨htype, hsequence, hfits⟩ fun hvar => ?_
      exact absurd (htype.symm.trans hvar) (by decide)

/-! ## Histories -/

/-- A call that writes: one of the attribute, or a transaction past it with
options of its own. -/
inductive WriteCall where
  | own (data : Data)
  | direct (options : ElementOptions) (data : Data)

/-- The data that a call is to write. -/
def WriteCall.data : WriteCall → Data
  | .own data | .direct _ data => data

/-- The call itself. -/
def WriteCall.run (stored : StoredAttribute) : WriteCall → Attribute.Use Store Unit
  | .own data => Attribute.write stored.source data
  | .direct options data => do
    let _ ← Attribute.onBackend (stored.source.perform options (some data))

/-- The options that a call writes with. -/
def WriteCall.options (attr : Attribute) : WriteCall → ElementOptions
  | .own _ => attr.options
  | .direct options _ => options

/-- The attribute after a call that succeeded. -/
def WriteCall.after (attr : Attribute) : WriteCall → Attribute
  | .own _ => attr.clear
  | .direct .. => attr

theorem WriteCall.run_eq (call : WriteCall) (attr : Attribute) (s : Store) :
    call.run stored (attr, s) =
      match stored.source.write (call.options attr) call.data s with
      | .ok _ t => .ok () (call.after attr, t)
      | .error e t => .error e (attr, t) := by
  cases call with
  | own data =>
    rw [run, Attribute.write_eq, WriteCall.options, WriteCall.data]
    cases stored.source.write attr.options data s <;> rfl
  | direct options data =>
    change EStateM.bind (Attribute.onBackend (EStateM.bind (stored.source.write options data) _)) _
      (attr, s) = _
    simp only [EStateM.bind, Attribute.onBackend_eq, WriteCall.options, WriteCall.data]
    cases stored.source.write options data s <;> rfl

/-- An attribute and what is stored of it, and the data of the last write
that succeeded. -/
structure History where
  attr : Attribute
  store : Store
  last : Option Data := none

namespace History

/-- A new attribute in a file. -/
def start (stored : StoredAttribute) (settings : Settings) (file : File) : History where
  attr := .ofSpace stored.space settings
  store := ⟨file, .blank stored.type stored.space⟩

/-- One call more, whether it succeeds or fails. -/
def step (stored : StoredAttribute) (h : History) (call : WriteCall) : History :=
  match call.run stored (h.attr, h.store) with
  | .ok _ (attr, s) => ⟨attr, s, some call.data⟩
  | .error _ (attr, s) => ⟨attr, s, h.last⟩

/-- What holds at any time: nothing is kept of what was read, nothing is
made to fail, and the last write decides what is stored. -/
structure Invariant (stored : StoredAttribute) (h : History) : Prop where
  unread : h.attr.data = none
  healthy : h.store.file.faults = []
  kept : Kept stored h.last h.store.content

theorem invariant_start (settings : Settings) {file : File} (hfaults : file.faults = []) :
    Invariant stored (start stored settings file) where
  unread := rfl
  healthy := hfaults
  kept := .intact stored.holds_blank fun _ data hdata => by cases hdata

theorem invariant_step {h : History} (hinv : Invariant stored h) (call : WriteCall) :
    Invariant stored (h.step stored call) := by
  have hfaults : Keeps faults (stored.source.write (call.options h.attr) call.data) :=
    keeps_faults_write
  unfold step
  rw [call.run_eq]
  cases hwrite : stored.source.write (call.options h.attr) call.data h.store with
  | ok _ t =>
    -- a transaction past the attribute does not clear it, but there is nothing to clear
    refine ⟨?_, (hfaults.of_ok hwrite).trans hinv.healthy, kept_of_write hwrite⟩
    cases call with
    | own data => rfl
    | direct options data => exact hinv.unread
  | error e t =>
    refine ⟨hinv.unread, (hfaults.onError hwrite).trans hinv.healthy, ?_⟩
    rw [keepsOnError_write hwrite]
    exact hinv.kept

theorem invariant_run {h : History} (hinv : Invariant stored h) (calls : List WriteCall) :
    Invariant stored (calls.foldl (step stored) h) := by
  induction calls generalizing h with
  | nil => exact hinv
  | cons call rest ih => exact ih (invariant_step hinv call)

end History

/-- **A read after any writes succeeds unless texts were lost.** Whatever is
written to a new attribute, through it or past it, what is stored is of the
right kind and can be read, with any options and through the attribute, just
if the last write that succeeded was not one of packed bytes or values for
text of any length. -/
theorem reads_iff_textsLast (settings : Settings) {file : File} (hfaults : file.faults = [])
    (calls : List WriteCall) :
    let h := calls.foldl (History.step stored) (.start stored settings file)
    (stored.Holds h.store.content ↔ stored.TextsLast h.last) ∧
      (∀ options, (∃ data s, stored.source.read options h.store = .ok data s) ↔
        stored.TextsLast h.last) ∧
      ((∃ data state, Attribute.read stored.source (h.attr, h.store) = .ok data state) ↔
        stored.TextsLast h.last) := by
  intro h
  have hinv : h.Invariant stored :=
    History.invariant_run (History.invariant_start settings hfaults) calls
  have hread (options : ElementOptions) :
      (∃ data s, stored.source.read options h.store = .ok data s) ↔ stored.TextsLast h.last := by
    rw [← hinv.kept.exists_view_iff options]
    constructor
    · rintro ⟨data, s, hok⟩
      exact ⟨data, view_of_read hok⟩
    · rintro ⟨data, hview⟩
      exact ⟨data, read_of_view hinv.healthy hview⟩
  refine ⟨hinv.kept.holds_iff, hread, ?_⟩
  -- nothing was read before, so the attribute asks its source
  rw [← hread h.attr.options, Attribute.read_eq, hinv.unread]
  dsimp only
  cases stored.source.read h.attr.options h.store with
  | ok data s => exact ⟨fun _ => ⟨data, s, rfl⟩, fun _ => ⟨data, _, rfl⟩⟩
  | error e s =>
    constructor
    · rintro ⟨data, state, hok⟩
      cases hok
    · rintro ⟨data, state, hok⟩
      cases hok

/-- One text, of which the eight packed bytes of its slot were written: it
cannot be read until a text is written. -/
theorem reads_after_packed_texts :
    let stored : StoredAttribute := { name := "title", type := .ofVarText, space := .line 1 }
    let h (calls : List WriteCall) : History :=
      calls.foldl (History.step stored) (.start stored .defaults (.ofPath "f.h5"))
    let packed : WriteCall := .own (.raw (Bytes.zeros 8))
    (¬∃ data state, Attribute.read stored.source ((h [packed]).attr, (h [packed]).store) =
      .ok data state) ∧
    ∃ data state, Attribute.read stored.source
      ((h [packed, .own (.texts ["a"])]).attr, (h [packed, .own (.texts ["a"])]).store) =
        .ok data state := by
  intro stored h packed
  have hreads (calls : List WriteCall) :=
    (@reads_iff_textsLast stored .defaults (.ofPath "f.h5") rfl calls).2.2
  refine ⟨fun hread => ?_, (hreads [packed, .own (.texts ["a"])]).2 fun _ data hdata => ?_⟩
  · have hlast := (hreads [packed]).1 hread rfl (.raw (Bytes.zeros 8)) rfl
    cases hlast
  · cases hdata
    rfl

end StoredAttribute

end Memory

end TypedAttr
