import TypedAttr.Memory.Attribute
import TypedAttr.Proofs.Data.SwappedOrder
import TypedAttr.Proofs.Element.SwappedEncoding
/-!
# Attributes in the other byte order

An attribute whose elements are stored in the other byte order is read as the
attribute itself is (`AttributeSource.read_swapped`). With what is known of
single elements, byte order makes no other difference than which way round
the slots of numbers lie (`Datatype.decode_encode_read_swapped`).
-/

namespace TypedAttr

variable {σ : Type}

/-- Two computations that go on from one action agree if they agree on all
that it can give. -/
theorem bind_congr_of_ok {α β : Type} {action : Action σ α} {next next' : α → Action σ β}
    (h : ∀ a s s', action s = .ok a s' → next a = next' a) :
    action >>= next = action >>= next' := by
  funext s
  change EStateM.bind action next s = EStateM.bind action next' s
  unfold EStateM.bind
  split
  · next a s' ha => rw [h a s s' ha]
  · rfl

namespace AttributeSource

/-- **A backend that fills what it is given to fill**: raw bytes are as many
as were asked for. -/
def ReadsInFull (source : AttributeSource σ) : Prop :=
  ∀ ⦃attr memory length s bytes s'⦄,
    source.readRaw attr memory length s = .ok bytes s' → bytes.length = length

/-- What is read of an attribute whose elements are stored in the other byte
order, as those of this one are in its own. -/
def swapped (source : AttributeSource σ) : AttributeSource σ :=
  { source with
    type := source.type.swapped
    readRaw := fun attr memory length =>
      source.type.reverseElements <$> source.readRaw attr memory length
    readSequences := fun attr memory count =>
      List.map (source.type.base?.getD source.type).reverseElements <$>
        source.readSequences attr memory count }

variable {source : AttributeSource σ} {options : ElementOptions} {attr memory : HandleId}

/-- Elements of one size are read as raw bytes. -/
theorem readWith_of_fixed (hvar : source.type.isVarText = false)
    (hsequence : source.type.isSequence = false) :
    source.readWith options attr memory =
      source.readRaw attr memory (source.count * source.type.size) >>= fun packed =>
        pure (.ofPacked source.type options source.count packed) := by
  unfold readWith
  split
  · next htype =>
    rw [htype] at hvar
    cases hvar
  · next htype =>
    rw [htype] at hsequence
    cases hsequence
  · rfl

theorem readWith_swapped (hfull : source.ReadsInFull) :
    source.swapped.readWith options attr memory = source.readWith options attr memory := by
  by_cases hfixed : source.type.isVarText = false ∧ source.type.isSequence = false
  · obtain ⟨hvar, hsequence⟩ := hfixed
    rw [readWith_of_fixed hvar hsequence,
      readWith_of_fixed ((Datatype.isVarText_swapped _).trans hvar)
        ((Datatype.isSequence_swapped _).trans hsequence)]
    change (source.type.reverseElements <$>
      source.readRaw attr memory (source.count * source.type.swapped.size)) >>= _ = _
    rw [Datatype.size_swapped, bind_map_left]
    refine bind_congr_of_ok fun packed s s' hread => ?_
    exact congrArg pure (Data.ofPacked_swapped (hfull hread))
  · unfold readWith
    cases htype : source.type with
    | varText traits => simp only [swapped, htype, Datatype.swapped, count]
    | sequence base traits =>
      simp only [swapped, htype, Datatype.swapped, Datatype.base?, Option.getD_some, count,
        bind_map_left, Data.ofRuns_swapped]
    | _ =>
      rw [htype] at hfixed
      exact absurd ⟨rfl, rfl⟩ hfixed

/-- **An attribute that is stored in the other byte order** is read as it is
when it is stored in its own. -/
theorem read_swapped (hfull : source.ReadsInFull) :
    source.swapped.read options = source.read options := by
  have hbody : source.swapped.readWith options = source.readWith options := by
    funext attr memory
    exact readWith_swapped hfull
  rw [read, read, hbody]
  rfl

end AttributeSource

/-- A file in memory gives as many bytes as are asked for, or none. -/
theorem Memory.StoredAttribute.readsInFull (stored : StoredAttribute) :
    stored.source.ReadsInFull := by
  intro attr memory length s bytes s' h
  obtain ⟨content, t, -, hread⟩ := bind_ok h
  cases content with
  | packed stored =>
    simp only at hread
    split at hread
    · next hlength =>
      cases hread
      exact hlength
    · cases hread
  | varTexts | runs => cases hread

namespace Datatype

/-- **Byte order is a matter of which way round slots lie.** An element whose
slots are turned round is decoded in the other order as it is in its own. What
decoding can yield is encoded in the other order if and as it is in its own,
with the slots turned round, where names tell the members of compounds apart.
And all elements of an attribute are read in the other order, from bytes that
are turned round, as the same data, at once and through a backend. -/
theorem decode_encode_read_swapped (type : Datatype) (options : ElementOptions) :
    (∀ bytes : Bytes, bytes.length = type.size →
      type.swapped.decode options (type.reverseSlots bytes) = type.decode options bytes) ∧
    (type.hasDistinctNames = true → ∀ (reading : ElementOptions) (bytes : Bytes),
      type.swapped.encode options (type.decode reading bytes) =
        (type.encode options (type.decode reading bytes)).map type.reverseSlots) ∧
    (∀ (count : Nat) (packed : Bytes), packed.length = count * type.size →
      Data.ofPacked type.swapped options count (type.reverseElements packed) =
        Data.ofPacked type options count packed) ∧
    ∀ {σ : Type} (source : AttributeSource σ), source.type = type → source.ReadsInFull →
      source.swapped.read options = source.read options := by
  refine ⟨fun bytes h => decodeAt_swapped "" h, fun hnames reading bytes => ?_,
    fun count packed h => Data.ofPacked_swapped h,
    fun source _ hfull => AttributeSource.read_swapped hfull⟩
  have hvalue : type.Yields (type.decode reading bytes) := ⟨reading, "", bytes, rfl⟩
  have hencoded : encodeAt options "" type.swapped (type.decode reading bytes) _ = _ :=
    encodeAt_swapped hnames hvalue "" (Bytes.length_zeros type.size)
  rw [reverseSlots_zeros] at hencoded
  rw [encode, encode, size_swapped, ← Overlay.toExcept_turned]
  exact congrArg Overlay.toExcept hencoded

/-- A record of a number, the big end first, and two floats, the little end
first. -/
theorem decode_encode_read_swapped_record :
    let type := ofMembers
      [("n", .integer 2 true { order := .big }), ("at", arrayOf (ofFloat 4) [2])]
    let bytes : Bytes := [1, 2, 0, 0, 128, 63, 0, 0, 0, 192]
    let turned : Bytes := [2, 1, 63, 128, 0, 0, 192, 0, 0, 0]
    let stored : Memory.StoredAttribute := { name := "records", type := type, space := .line 2 }
    type.hasDistinctNames = true ∧ type.reverseSlots bytes = turned ∧
      type.swapped.decode {} turned = type.decode {} bytes ∧
      type.swapped.encode {} (type.decode {} bytes) = .ok turned ∧
      Data.ofPacked type.swapped {} 2 (turned ++ turned) =
        Data.ofPacked type {} 2 (bytes ++ bytes) ∧
      stored.source.swapped.read {} = stored.source.read {} := by
  intro type bytes turned stored
  have hnames : type.hasDistinctNames = true := by decide
  have hturned : type.reverseSlots bytes = turned := by decide +kernel
  have hencoded : type.encode {} (type.decode {} bytes) = .ok bytes :=
    Overlay.toExcept_eq_ok.2 (by decide +kernel)
  have hpacked : type.reverseElements (bytes ++ bytes) = turned ++ turned := by decide +kernel
  obtain ⟨hdecode, hencode, hofPacked, hread⟩ := decode_encode_read_swapped type {}
  refine ⟨hnames, hturned, ?_, ?_, ?_, hread stored.source rfl stored.readsInFull⟩
  · rw [← hturned]
    exact hdecode bytes (by decide)
  · rw [hencode hnames {} bytes, hencoded, ← hturned]
    rfl
  · rw [← hpacked]
    exact hofPacked 2 (bytes ++ bytes) (by decide)

end Datatype

end TypedAttr
