import TypedAttr.Proofs.Data.ReadForms
import TypedAttr.Proofs.Data.WriteForms
import TypedAttr.Proofs.Element.Slots
import TypedAttr.Proofs.Number.Range
/-!
# Words packed at once

Words are packed one after the other and read again as they were, and packed
bytes that were read as words are packed again as they were. Integers of
another kind are packed as the words that their numbers wrap to, if they are
taken at all (`packIntegers_iff`): words of the target's size are, whatever
their sign, and signed words of twice its size are for unsigned ones, if all
of them are in range.
-/

namespace TypedAttr

/-- Chunks are joined to the items that they were cut from. -/
theorem flatten_wholeChunks {α : Type} {n count : Nat} {items : List α}
    (h : items.length = count * n) : (wholeChunks n items).flatten = items := by
  rcases Nat.eq_zero_or_pos n with rfl | hn
  · obtain rfl : items = [] := List.eq_nil_of_length_eq_zero (by simpa using h)
    simp [wholeChunks]
  rw [wholeChunks_eq_slots hn h]
  induction count generalizing items with
  | zero =>
    obtain rfl : items = [] := List.eq_nil_of_length_eq_zero (by simpa using h)
    rfl
  | succ count ih =>
    rw [Nat.add_mul, Nat.one_mul] at h
    have hrest : (items.drop n).length = count * n := by
      rw [List.length_drop]
      omega
    rw [slots_succ, List.flatten_cons, ih hrest, List.take_append_drop]

namespace ByteOrder

variable (order : ByteOrder) {width : Nat}

/-- **Words that were packed are read again.** -/
theorem readWords_writeWords (hwidth : 0 < width) (words : List (BitVec (8 * width))) :
    order.readWords width (order.writeWords words) = words := by
  have hslots : ∀ slot ∈ words.map order.writeWord, slot.length = width := by
    intro slot hslot
    obtain ⟨word, -, rfl⟩ := List.mem_map.1 hslot
    exact length_writeWord order word
  rw [readWords, writeWords, List.flatMap_def, wholeChunks_flatten hwidth hslots, List.map_map]
  exact List.map_id'' (fun word => readWord_writeWord order word) words

/-- **Bytes that were read as words are packed again.** -/
theorem writeWords_readWords {packed : Bytes} {count : Nat} (h : packed.length = count * width) :
    order.writeWords (order.readWords width packed) = packed := by
  have hwords : (wholeChunks width packed).map (fun slot =>
      order.writeWord (order.readWord width slot)) = wholeChunks width packed := by
    refine Eq.trans (List.map_congr_left fun slot hslot => ?_) (List.map_id _)
    exact order.writeWord_readWord (length_of_mem_wholeChunks hslot)
  rw [readWords, writeWords, List.flatMap_def, List.map_map]
  exact (congrArg List.flatten hwords).trans (flatten_wholeChunks h)

theorem length_writeWords (words : List (BitVec (8 * width))) :
    (order.writeWords words).length = words.length * width :=
  length_flatMap fun word _ => length_writeWord order word

end ByteOrder

namespace IntKind

/-- The words of another kind that the numbers of words wrap to. -/
def rewrap (target kind : IntKind) (words : List (BitVec kind.bits)) :
    List (BitVec target.bits) :=
  words.map fun word => BitVec.ofInt target.bits (kind.toInt word)

/-- **Whether words of a kind are taken for words of another**: those of its
size are, and signed ones of twice the size are for unsigned ones, if all of
them are in range. -/
def Takes (target kind : IntKind) (words : List (BitVec kind.bits)) : Prop :=
  kind.size = target.size ∨
    target.signed = false ∧ kind.signed = true ∧ kind.size.bytes = 2 * target.size.bytes ∧
      ∀ word ∈ words, target.fits (kind.toInt word) = true

variable {target kind : IntKind} {words : List (BitVec kind.bits)}

/-- A word is what its number wraps to, with a sign or without. -/
theorem ofInt_toInt (kind : IntKind) (word : BitVec kind.bits) :
    BitVec.ofInt kind.bits (kind.toInt word) = word := by
  rw [toInt]
  cases kind.signed with
  | true => exact BitVec.ofInt_toInt
  | false => simp

/-- So words of one size are not changed by another sign. -/
theorem rewrap_of_size {size : WordSize} {signed other : Bool}
    (words : List (BitVec (8 * size.bytes))) :
    rewrap ⟨size, other⟩ ⟨size, signed⟩ words = words :=
  List.map_id'' (ofInt_toInt ⟨size, signed⟩) words

/-- **Numbers survive just if they are all in range.** -/
theorem toInt_rewrap_iff :
    (target.rewrap kind words).map target.toInt = words.map kind.toInt ↔
      ∀ word ∈ words, target.fits (kind.toInt word) = true := by
  rw [rewrap, List.map_map, List.map_inj_left]
  refine forall₂_congr fun word _ => ⟨fun h => ?_, fun h => target.toInt_ofInt h⟩
  rw [← h]
  exact target.fits_toInt _

/-- They all are, unless the words are of the target's size and of another
sign. -/
theorem Takes.fits (h : target.Takes kind words)
    (hsign : kind.size = target.size → kind.signed = target.signed) :
    ∀ word ∈ words, target.fits (kind.toInt word) = true := by
  rcases h with hsize | ⟨-, -, -, hfits⟩
  · obtain rfl : kind = target := by
      cases kind
      cases target
      exact congr (congrArg IntKind.mk hsize) (hsign hsize)
    exact fun word _ => kind.fits_toInt word
  · exact hfits

end IntKind

namespace Data

variable {kind : IntKind} {words : List (BitVec kind.bits)} {size : WordSize}

/-- Words that are all in range are narrowed. -/
theorem narrow_of_fits (h : ∀ word ∈ words, (⟨size, false⟩ : IntKind).fits (kind.toInt word)) :
    narrow size kind words = .ok (IntKind.rewrap ⟨size, false⟩ kind words) :=
  mapM_of_ok fun word hmem => by rw [IntKind.ofInt?_of_fits _ (h word hmem)]

/-- Otherwise the first that is not is refused. -/
theorem narrow_of_not_fits {word : BitVec kind.bits} (hmem : word ∈ words)
    (h : ¬(⟨size, false⟩ : IntKind).fits (kind.toInt word)) :
    ∃ refused ∈ words, ¬(⟨size, false⟩ : IntKind).fits (kind.toInt refused) ∧
      narrow size kind words = .error (.outOfWord (kind.toInt refused) size) := by
  induction words with
  | nil => cases hmem
  | cons first rest ih =>
    by_cases hfirst : (⟨size, false⟩ : IntKind).fits (kind.toInt first)
    · have hrest : word ∈ rest := by
        rcases List.mem_cons.1 hmem with rfl | hrest
        · exact absurd hfirst h
        · exact hrest
      obtain ⟨refused, hrefused, hunfit, hnarrow⟩ := ih hrest
      refine ⟨refused, List.mem_cons_of_mem _ hrefused, hunfit, ?_⟩
      rw [narrow] at hnarrow ⊢
      rw [List.mapM_cons, IntKind.ofInt?_of_fits _ hfirst, hnarrow]
      rfl
    · refine ⟨first, List.mem_cons_self, hfirst, ?_⟩
      rw [narrow, List.mapM_cons, IntKind.ofInt?, if_neg hfirst]
      rfl

variable {type : Datatype}

/-- **What integers are packed to**: if they are taken, the words that their
numbers wrap to. -/
theorem packIntegers_iff (hsize : WordSize.ofBytes? type.size = some size) (bytes : Bytes) :
    packIntegers type (.ints kind words) = .ok bytes ↔
      IntKind.Takes ⟨size, type.isSigned⟩ kind words ∧
        bytes = type.order.writeWords (IntKind.rewrap ⟨size, type.isSigned⟩ kind words) := by
  simp only [packIntegers, hsize]
  by_cases hsame : kind.size = size
  · obtain ⟨own, signed⟩ := kind
    subst hsame
    simp only [if_true, IntKind.rewrap_of_size, Except.ok.injEq]
    exact ⟨fun h => ⟨.inl rfl, h.symm⟩, fun h => h.2.symm⟩
  rw [if_neg hsame]
  by_cases hnarrows : type.isSigned = false ∧ kind.signed = true ∧ kind.size.bytes = 2 * size.bytes
  · obtain ⟨htarget, hkind, hdouble⟩ := hnarrows
    have hguard : (!type.isSigned && kind.signed && kind.size.bytes = 2 * size.bytes) = true := by
      simp [htarget, hkind, hdouble]
    rw [if_pos hguard, htarget]
    by_cases hfits : ∀ word ∈ words, (⟨size, false⟩ : IntKind).fits (kind.toInt word)
    · rw [narrow_of_fits hfits]
      refine ⟨fun h => ⟨.inr ⟨rfl, hkind, hdouble, hfits⟩, (Except.ok.inj h).symm⟩, fun h => ?_⟩
      rw [h.2]
      rfl
    · obtain ⟨word, hmem, hunfit⟩ : ∃ word ∈ words,
          ¬(⟨size, false⟩ : IntKind).fits (kind.toInt word) := by
        simpa using hfits
      obtain ⟨refused, hrefused, hout, hnarrow⟩ := narrow_of_not_fits hmem hunfit
      rw [hnarrow]
      constructor
      · rintro ⟨⟩
      · rintro ⟨hsize | ⟨-, -, -, hfits⟩, -⟩
        · exact absurd hsize hsame
        · exact absurd (hfits refused hrefused) hout
  · have hguard : ¬(!type.isSigned && kind.signed && kind.size.bytes = 2 * size.bytes) = true := by
      simpa [and_assoc] using hnarrows
    rw [if_neg hguard]
    constructor
    · rintro ⟨⟩
    · rintro ⟨hsize | ⟨htarget, hkind, hdouble, -⟩, -⟩
      · exact absurd hsize hsame
      · exact absurd ⟨htarget, hkind, hdouble⟩ hnarrows

end Data

end TypedAttr
