import TypedAttr.Proofs.Element.Bounds
/-!
# Integers in slots

A slot of one, two, four or eight bytes holds the numbers of a range
(`InRange`). Those and no others are written there: as two's complement, that
is, modulo the first number that needs more bits, and they are read again from
the slot (`writeInteger_exact`). The word of a number is cut out of 64 bits on
the way, of which a number of the range loses none.
-/

namespace TypedAttr

namespace Datatype

/-- The numbers that a slot of a length holds, with or without a sign. -/
def InRange (signed : Bool) (length : Nat) (n : Int) : Prop :=
  if signed then -2 ^ (8 * length - 1) ≤ n ∧ n < 2 ^ (8 * length - 1)
  else 0 ≤ n ∧ n < 2 ^ (8 * length)

instance (signed : Bool) (length : Nat) (n : Int) : Decidable (InRange signed length n) :=
  inferInstanceAs (Decidable (if signed then _ else _))

variable {signed : Bool} {n : Int} {slot : Bytes} {size : WordSize}

theorem fits_iff_inRange (hsize : size.bytes = slot.length) :
    IntKind.fits ⟨size, signed⟩ n = true ↔ InRange signed slot.length n := by
  rw [IntKind.fits_iff, InRange, ← hsize]
  cases signed <;> simp [IntKind.bits]

/-- **A word stands in its slot modulo what the slot can hold.** -/
theorem read_writeWord_ofInt (order : ByteOrder) (width : Nat) (n : Int) :
    (order.read (order.writeWord (BitVec.ofInt (8 * width) n)) : Int) = n % 2 ^ (8 * width) := by
  have hbound : (BitVec.ofInt (8 * width) n).toNat < Nat.pow 256 width := by
    have hlt := (BitVec.ofInt (8 * width) n).isLt
    rwa [Nat.pow_mul] at hlt
  have hnonneg : 0 ≤ n % (2 ^ (8 * width) : Nat) :=
    Int.emod_nonneg n (Int.natCast_ne_zero.2 (Nat.ne_of_gt (Nat.two_pow_pos _)))
  rw [ByteOrder.writeWord, ByteOrder.read_write, Nat.mod_eq_of_lt hbound, BitVec.toNat_ofInt,
    Int.toNat_of_nonneg hnonneg, Int.natCast_pow]
  rfl

/-- A number in range is written as its word, and the word is read as it. -/
theorem writeInteger_of_inRange (order : ByteOrder) (hsize : size.bytes = slot.length)
    (h : InRange signed slot.length n) :
    writeInteger order signed n slot =
        .untouched (order.writeWord (BitVec.ofInt (8 * size.bytes) n)) ∧
      (decodeInteger order signed (order.writeWord (BitVec.ofInt (8 * size.bytes) n))).toInt? =
        some n := by
  have hfits : IntKind.fits ⟨size, signed⟩ n = true := (fits_iff_inRange hsize).2 h
  constructor
  · have hword := IntKind.ofInt?_of_fits ⟨size, signed⟩ hfits
    exact writeInteger_of_ofInt? hword hsize.symm
  · have hword := @decodeInteger_writeWord order ⟨size, signed⟩ (BitVec.ofInt _ n)
    rw [hword, Value.toInt?, IntKind.toInt_ofInt _ hfits]

/-- Any other is refused, and the slot is left as it was. -/
theorem writeInteger_of_not_inRange (order : ByteOrder) (hsize : size.bytes = slot.length)
    (h : ¬InRange signed slot.length n) :
    writeInteger order signed n slot = .refused slot (.outOfSlot n slot.length signed) := by
  have hfits : ¬IntKind.fits ⟨size, signed⟩ n = true := fun hfits =>
    h ((fits_iff_inRange hsize).1 hfits)
  have hfound : WordSize.ofBytes? slot.length = some size := by
    rw [← hsize, WordSize.ofBytes?_bytes]
  simp only [writeInteger, hfound, IntKind.ofInt?, hfits]
  rfl

/-- A slot of a length that no word has is filled with zeros. -/
theorem writeInteger_of_none (order : ByteOrder) (h : WordSize.ofBytes? slot.length = none) :
    writeInteger order signed n slot = .untouched (Bytes.zeros slot.length) := by
  simp only [writeInteger, h]

/-- **Integers in slots are exact.** A slot of one, two, four or eight bytes
takes a number just if it is in range. Then the slot holds the number modulo
the first one that needs more bits, and the number is read from it; otherwise
it is left as it was. A slot of any other length is filled with zeros. To cut
the word out of the lowest 64 bits of the number, every access checked, comes
to the same. -/
theorem writeInteger_exact (order : ByteOrder) (signed : Bool) (n : Int) (slot : Bytes) :
    let written := writeInteger order signed n slot
    (slot.length ∈ [1, 2, 4, 8] →
        (written.failure = none ↔ InRange signed slot.length n) ∧
          (InRange signed slot.length n →
            written.slot.length = slot.length ∧
              (order.read written.slot : Int) = n % 2 ^ (8 * slot.length) ∧
              (decodeInteger order signed written.slot).toInt? = some n) ∧
          (¬InRange signed slot.length n →
            written = .refused slot (.outOfSlot n slot.length signed))) ∧
      (slot.length ∉ [1, 2, 4, 8] → written = .untouched (Bytes.zeros slot.length)) ∧
      Guarded.writeInteger order signed n slot = .ok written := by
  intro written
  refine ⟨fun hlength => ?_, fun hlength => ?_, Guarded.writeInteger_eq order signed n slot⟩
  · obtain ⟨size, hfound⟩ := Option.isSome_iff_exists.1 ((WordSize.isSome_ofBytes? _).2 hlength)
    have hsize : size.bytes = slot.length := WordSize.bytes_of_ofBytes? hfound
    by_cases hrange : InRange signed slot.length n
    · obtain ⟨hwritten, hread⟩ := writeInteger_of_inRange order hsize hrange
      simp only [written, hwritten]
      refine ⟨iff_of_true rfl hrange, fun _ => ⟨?_, ?_, hread⟩, absurd hrange⟩
      · exact (order.length_writeWord _).trans hsize
      · rw [← hsize]
        exact read_writeWord_ofInt order size.bytes n
    · have hrefused := writeInteger_of_not_inRange order hsize hrange
      have hfailure : written.failure ≠ none := by simp [written, hrefused, Overlay.refused]
      exact ⟨iff_of_false hfailure hrange, fun h => absurd h hrange, fun _ => hrefused⟩
  · refine writeInteger_of_none order (Option.not_isSome_iff_eq_none.1 fun hfound => hlength ?_)
    exact (WordSize.isSome_ofBytes? _).1 hfound

/-- The least number of 64 bits goes into eight bytes and the one below it does
not; three bytes take any number, and hold none. -/
theorem writeInteger_exact_least :
    let least : Int := -9223372036854775808
    let slot : Bytes := [1, 2, 3, 4, 5, 6, 7, 8]
    (InRange true 8 least ∧
        (writeInteger .big true least slot).slot = [128, 0, 0, 0, 0, 0, 0, 0] ∧
        (decodeInteger .big true (writeInteger .big true least slot).slot).toInt? = some least) ∧
      (¬InRange true 8 (least - 1) ∧
        writeInteger .big true (least - 1) slot =
          .refused slot (.conversion
            "-9223372036854775809 does not fit a 8-byte signed integer")) ∧
      writeInteger .big true least [1, 2, 3] = .untouched [0, 0, 0] := by
  intro least slot
  obtain ⟨hexact, -⟩ := writeInteger_exact .big true least slot
  obtain ⟨-, htaken, -⟩ := hexact (by decide)
  obtain ⟨hpast, -⟩ := writeInteger_exact .big true (least - 1) slot
  obtain ⟨-, -, hrefused⟩ := hpast (by decide)
  obtain ⟨-, hzeros, -⟩ := writeInteger_exact .big true least [1, 2, 3]
  have hrange : InRange true 8 least := by decide
  have hbelow : ¬InRange true 8 (least - 1) := by decide
  exact ⟨⟨hrange, by decide, (htaken hrange).2.2⟩, ⟨hbelow, (hrefused hbelow).trans (by decide)⟩,
    hzeros (by decide)⟩

end Datatype

end TypedAttr
