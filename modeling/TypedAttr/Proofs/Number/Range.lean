import TypedAttr.Number.Integer
/-!
# The range of a machine integer

A word stands for a number in the range of its kind (`fits_toInt`), and
the two directions between words and numbers in range undo each other
(`ofInt?_toInt`, `toInt_ofInt`).
-/

namespace TypedAttr

namespace WordSize

theorem bytes_pos (size : WordSize) : 0 < size.bytes := by
  cases size <;> decide

/-- The sizes that convert, as the counts of bytes that they are. -/
theorem isSome_ofBytes? (n : Nat) : (ofBytes? n).isSome = true ↔ n ∈ [1, 2, 4, 8] := by
  constructor
  · intro h
    obtain ⟨size, hsize⟩ := Option.isSome_iff_exists.1 h
    rw [← bytes_of_ofBytes? hsize]
    cases size <;> decide
  · intro h
    simp only [List.mem_cons, List.not_mem_nil, or_false] at h
    rcases h with rfl | rfl | rfl | rfl <;> rfl

end WordSize

namespace IntKind

variable (kind : IntKind)

theorem bits_pos : 0 < kind.bits := by
  have := kind.size.bytes_pos
  simp only [bits]
  omega

/-- **The range of a kind**, from the least number of its width up to the
bound of its width. -/
theorem fits_iff (n : Int) :
    kind.fits n = true ↔
      if kind.signed then
        -(Nat.pow 2 (kind.bits - 1) : Nat) ≤ n ∧ n < (Nat.pow 2 (kind.bits - 1) : Nat)
      else 0 ≤ n ∧ n < (Nat.pow 2 kind.bits : Nat) := by
  cases h : kind.signed <;> simp [fits, least, bound, h]

/-- A word stands for a number in the range of its kind. -/
theorem fits_toInt (word : BitVec kind.bits) : kind.fits (kind.toInt word) = true := by
  rw [fits_iff, toInt]
  cases kind.signed with
  | true =>
    simp only [if_true, Nat.pow_eq, Int.natCast_pow]
    exact ⟨word.le_toInt, word.toInt_lt⟩
  | false =>
    simp only [Bool.false_eq_true, if_false]
    exact ⟨Int.natCast_nonneg _, Int.ofNat_lt.2 word.isLt⟩

/-- The word of the number that a word stands for is that word. -/
@[simp] theorem ofInt?_toInt (word : BitVec kind.bits) :
    kind.ofInt? (kind.toInt word) = some word := by
  rw [ofInt?, if_pos (kind.fits_toInt word), toInt]
  cases kind.signed with
  | true => simp
  | false => simp

/-- A number in range is what its word stands for. -/
theorem toInt_ofInt {n : Int} (h : kind.fits n = true) :
    kind.toInt (BitVec.ofInt kind.bits n) = n := by
  rw [fits_iff] at h
  rw [toInt]
  cases hs : kind.signed with
  | true =>
    rw [hs] at h
    exact BitVec.toInt_ofInt_eq_self kind.bits_pos h.1 h.2
  | false =>
    rw [hs] at h
    obtain ⟨hnonneg, hlt⟩ := h
    have hmod : n % ((2 ^ kind.bits : Nat) : Int) = n :=
      Int.emod_eq_of_lt hnonneg (by exact_mod_cast hlt)
    simp only [Bool.false_eq_true, if_false, BitVec.toNat_ofInt, hmod]
    exact Int.toNat_of_nonneg hnonneg

/-- The word of a number in range. -/
theorem ofInt?_of_fits {n : Int} (h : kind.fits n = true) :
    kind.ofInt? n = some (BitVec.ofInt kind.bits n) := by
  rw [ofInt?, if_pos h]

end IntKind

end TypedAttr
