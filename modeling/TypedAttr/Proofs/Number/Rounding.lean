import TypedAttr.Proofs.Number.Patterns
import Mathlib.Algebra.Order.Field.Basic
import Mathlib.Data.Rat.Cast.Order
/-!
# Rounding to a format

Rounding looks at nothing but the number: a mantissa and an exponent that
make the same number round to the same pattern (`round_eq_of_value`). A
number that the format has is kept. A pattern is what its number rounds to
(`round_decode`), and a mantissa of no more bits than a format's, whose last
place is in the format's range, is read again as it was, but for its leading
bit, which is moved up to the top (`decode_round`, `isOf_round`).
-/

namespace TypedAttr

/-- That a pattern stands for a finite number of a sign and a magnitude. -/
def BinaryNumber.IsOf (n : BinaryNumber) (negative : Bool) (magnitude : ℚ) : Prop :=
  ∃ (mantissa : Nat) (exponent : Int), n = .finite negative mantissa exponent ∧
    (mantissa : ℚ) * 2 ^ exponent = magnitude

namespace FloatFormat

/-! ## Leading bits -/

theorem log2_mul_two_pow {n : Nat} (h : n ≠ 0) (k : Nat) : (n * 2 ^ k).log2 = n.log2 + k := by
  have hpos := Nat.two_pow_pos k
  rw [Nat.log2_eq_iff (Nat.mul_ne_zero h (by omega))]
  have hlow := Nat.mul_le_mul_right (2 ^ k) (Nat.log2_self_le h)
  have hhigh := Nat.mul_lt_mul_of_pos_right (Nat.lt_log2_self (n := n)) hpos
  rw [← Nat.pow_add] at hlow hhigh
  exact ⟨hlow, by rwa [Nat.add_right_comm]⟩

/-- A mantissa with its leading bit moved up to place `width`. -/
theorem leading_bounds {n : Nat} (width : Nat) (h : n ≠ 0) (hwidth : n < 2 ^ (width + 1)) :
    2 ^ width ≤ n * 2 ^ (width - n.log2) ∧ n * 2 ^ (width - n.log2) < 2 ^ (width + 1) := by
  have hlog : n.log2 < width + 1 := (Nat.log2_lt h).2 hwidth
  have hpos := Nat.two_pow_pos (width - n.log2)
  have htop : (n * 2 ^ (width - n.log2)).log2 = width := by
    rw [log2_mul_two_pow h]
    omega
  exact (Nat.log2_eq_iff (Nat.mul_ne_zero h (by omega))).1 htop

/-! ## Rounding looks at the number only -/

/-- Half of the divisor tells the same of a quotient in smaller places. -/
theorem halfEven_shift (n shift k : Nat) :
    halfEven (n * 2 ^ k) (shift + k) = halfEven n shift := by
  have hpos := Nat.two_pow_pos k
  simp only [halfEven, Nat.pow_eq, Nat.pow_add, Nat.mul_div_mul_right _ _ hpos,
    Nat.mul_mod_mul_right, ← Nat.mul_assoc, Nat.mul_lt_mul_right hpos]

/-- A quotient without a rest is not rounded. -/
theorem halfEven_exact {shift k : Nat} (h : shift ≤ k) (n : Nat) :
    halfEven (n * 2 ^ k) shift = n * 2 ^ (k - shift) := by
  have hpos := Nat.two_pow_pos shift
  have hsplit : n * 2 ^ k = n * 2 ^ (k - shift) * 2 ^ shift := by
    rw [Nat.mul_assoc, ← Nat.pow_add, Nat.sub_add_cancel h]
  simp only [halfEven, Nat.pow_eq, hsplit, Nat.mul_mod_left, Nat.mul_div_cancel _ hpos]
  rw [if_pos (by omega)]

/-- How often a place goes into a number, rounded. -/
def countOf (mantissa : Nat) (exponent place : Int) : Nat :=
  if exponent < place then halfEven mantissa (place - exponent).toNat
  else mantissa * Nat.pow 2 (exponent - place).toNat

theorem countOf_shift (mantissa k : Nat) (exponent place : Int) :
    countOf (mantissa * 2 ^ k) exponent place = countOf mantissa (exponent + k) place := by
  simp only [countOf, Nat.pow_eq]
  by_cases hcut : exponent + k < place
  · have hshift : (place - exponent).toNat = (place - (exponent + k)).toNat + k := by omega
    rw [if_pos (by omega), if_pos hcut, hshift, halfEven_shift]
  · rw [if_neg hcut]
    by_cases hlow : exponent < place
    · have hrest : k - (place - exponent).toNat = (exponent + k - place).toNat := by omega
      rw [if_pos hlow, halfEven_exact (by omega), hrest]
    · have hrest : (exponent + k - place).toNat = k + (exponent - place).toNat := by omega
      rw [if_neg hlow, hrest, Nat.pow_add, Nat.mul_assoc]

variable {format : FloatFormat}

theorem roundMagnitude_eq (mantissa : Nat) (exponent : Int) :
    format.roundMagnitude mantissa exponent =
      min ((format.lastPlace mantissa exponent - format.leastPlace).toNat *
          2 ^ format.fractionBits +
        countOf mantissa exponent (format.lastPlace mantissa exponent))
        format.infinityMagnitude := rfl

/-- Zeros at the end of a mantissa count as much as the exponent says. -/
theorem round_shift (negative : Bool) (mantissa k : Nat) (exponent : Int) :
    format.round negative (mantissa * 2 ^ k) exponent =
      format.round negative mantissa (exponent + k) := by
  have hpos := Nat.two_pow_pos k
  by_cases h : mantissa = 0
  · simp [round, h]
  · have hplace : format.lastPlace (mantissa * 2 ^ k) exponent =
        format.lastPlace mantissa (exponent + k) := by
      simp only [lastPlace, log2_mul_two_pow h]
      omega
    rw [round, round, if_neg h, if_neg (Nat.mul_ne_zero h (by omega)), roundMagnitude_eq,
      roundMagnitude_eq, hplace, countOf_shift]

/-- **Rounding looks at the number only**, not at how it is written. -/
theorem round_eq_of_value {m n : Nat} {e f : Int} (h : (m : ℚ) * 2 ^ e = n * 2 ^ f)
    (negative : Bool) : format.round negative m e = format.round negative n f := by
  wlog hle : e ≤ f generalizing m n e f
  · exact (this h.symm (by omega)).symm
  obtain ⟨k, rfl⟩ := Int.le.dest hle
  have hmantissa : m = n * 2 ^ k := by
    have htwo : (2 : ℚ) ^ e ≠ 0 := zpow_ne_zero e two_ne_zero
    rw [zpow_add₀ two_ne_zero, zpow_natCast, mul_comm ((2 : ℚ) ^ e), ← mul_assoc] at h
    exact_mod_cast mul_right_cancel₀ htwo h
  rw [hmantissa, round_shift]

/-! ## Numbers of the format -/

/-- A number with a leading bit is kept, `above` places above the least. -/
theorem round_normal {above mantissa : Nat} (habove : above + 1 < format.topExponent)
    (hlow : 2 ^ format.fractionBits ≤ mantissa) (hhigh : mantissa < 2 ^ (format.fractionBits + 1))
    (negative : Bool) :
    format.round negative mantissa (format.leastPlace + above) =
      format.signed negative (above * 2 ^ format.fractionBits + mantissa) := by
  have hpos := Nat.two_pow_pos format.fractionBits
  have hzero : mantissa ≠ 0 := by omega
  have hlog : mantissa.log2 = format.fractionBits := (Nat.log2_eq_iff hzero).2 ⟨hlow, hhigh⟩
  have hplace : format.lastPlace mantissa (format.leastPlace + above) =
      format.leastPlace + above := by
    rw [lastPlace, hlog]
    omega
  have hbound : above * 2 ^ format.fractionBits + mantissa ≤ format.infinityMagnitude := by
    have hstep := Nat.mul_le_mul_right (2 ^ format.fractionBits) (Nat.succ_le_of_lt habove)
    rw [infinityMagnitude, Nat.pow_eq]
    rw [Nat.pow_succ] at hhigh
    simp only [Nat.succ_eq_add_one, Nat.add_mul] at hstep
    omega
  rw [round, if_neg hzero, roundMagnitude_eq, hplace, countOf, if_neg (by omega)]
  simp [hbound]

/-- So is a number without one. -/
theorem round_subnormal {mantissa : Nat} (h : mantissa < 2 ^ format.fractionBits)
    (negative : Bool) :
    format.round negative mantissa format.leastPlace = format.signed negative mantissa := by
  by_cases hzero : mantissa = 0
  · rw [round, if_pos hzero, zero, hzero]
  have hlog : mantissa.log2 < format.fractionBits := (Nat.log2_lt hzero).2 h
  have hplace : format.lastPlace mantissa format.leastPlace = format.leastPlace := by
    rw [lastPlace]
    omega
  have hbound : mantissa ≤ format.infinityMagnitude := by
    have htop := Nat.mul_le_mul_right (2 ^ format.fractionBits) format.three_le_topExponent
    rw [infinityMagnitude, Nat.pow_eq]
    omega
  rw [round, if_neg hzero, roundMagnitude_eq, hplace, countOf, if_neg (by omega)]
  simp [hbound]

/-- **A pattern is what its number rounds to.** -/
theorem round_decode {pattern : BitVec format.bits} {negative : Bool} {mantissa : Nat}
    {exponent : Int} (h : format.decode pattern = .finite negative mantissa exponent) :
    format.round negative mantissa exponent = pattern := by
  rcases finite_cases h with ⟨hmantissa, rfl, rfl⟩ | ⟨above, habove, hlow, hhigh, rfl, rfl⟩
  · exact round_subnormal hmantissa negative
  · exact round_normal habove hlow hhigh negative

/-- A number that fits is kept, its leading bit moved up to the top. -/
theorem round_leading {mantissa : Nat} {exponent : Int} (above : Nat) (hzero : mantissa ≠ 0)
    (hwidth : mantissa < 2 ^ (format.fractionBits + 1))
    (hplace : exponent + mantissa.log2 - format.fractionBits = format.leastPlace + above)
    (htop : above + 1 < format.topExponent) (negative : Bool) :
    format.round negative mantissa exponent =
      format.signed negative (above * 2 ^ format.fractionBits +
        mantissa * 2 ^ (format.fractionBits - mantissa.log2)) := by
  have hlog : mantissa.log2 < format.fractionBits + 1 := (Nat.log2_lt hzero).2 hwidth
  obtain ⟨hlow, hhigh⟩ := leading_bounds _ hzero hwidth
  have hexponent : exponent =
      format.leastPlace + above + (format.fractionBits - mantissa.log2 : Nat) := by omega
  rw [hexponent, ← round_shift, round_normal htop hlow hhigh]

/-- **A number that fits is read again**, its leading bit at the top. -/
theorem decode_round {mantissa : Nat} {exponent : Int} (hzero : mantissa ≠ 0)
    (hwidth : mantissa < 2 ^ (format.fractionBits + 1))
    (hlow : format.leastPlace ≤ exponent + mantissa.log2 - format.fractionBits)
    (hhigh : exponent + mantissa.log2 - format.fractionBits - format.leastPlace + 1 <
      format.topExponent)
    (negative : Bool) :
    format.decode (format.round negative mantissa exponent) =
      .finite negative (mantissa * 2 ^ (format.fractionBits - mantissa.log2))
        (exponent + mantissa.log2 - format.fractionBits) := by
  obtain ⟨hleast, hmost⟩ := leading_bounds _ hzero hwidth
  obtain ⟨above, habove⟩ := Int.le.dest hlow
  have htop : above + 1 < format.topExponent := by omega
  rw [round_leading above hzero hwidth habove.symm htop, decode_normal htop hleast hmost, habove]

/-- Zero is read again under its sign. -/
theorem decode_zero (negative : Bool) :
    format.decode (format.zero negative) = .finite negative 0 format.leastPlace :=
  decode_subnormal (Nat.two_pow_pos _) negative

/-- The leading bit moves, the number does not. -/
theorem value_leading {mantissa width : Nat} (h : mantissa < 2 ^ (width + 1)) (exponent : Int) :
    ((mantissa * 2 ^ (width - mantissa.log2) : Nat) : ℚ) *
      2 ^ (exponent + mantissa.log2 - width) = mantissa * 2 ^ exponent := by
  by_cases hzero : mantissa = 0
  · simp [hzero]
  · have hlog : mantissa.log2 < width + 1 := (Nat.log2_lt hzero).2 h
    have hexponent : exponent =
        (width - mantissa.log2 : Nat) + (exponent + mantissa.log2 - width) := by omega
    conv_rhs => rw [hexponent, zpow_add₀ two_ne_zero, zpow_natCast]
    push_cast
    ring

/-- **A number well inside the range is kept**, zero with the others. -/
theorem isOf_round {mantissa : Nat} {exponent : Int}
    (hwidth : mantissa < 2 ^ (format.fractionBits + 1))
    (hlow : format.leastPlace + format.fractionBits ≤ exponent)
    (hhigh : exponent - format.leastPlace + 1 < format.topExponent) (negative : Bool) :
    (format.decode (format.round negative mantissa exponent)).IsOf negative
      (mantissa * 2 ^ exponent) := by
  by_cases hzero : mantissa = 0
  · refine ⟨0, format.leastPlace, ?_, by simp [hzero]⟩
    rw [round, if_pos hzero, decode_zero]
  · have hlog : mantissa.log2 < format.fractionBits + 1 := (Nat.log2_lt hzero).2 hwidth
    exact ⟨_, _, decode_round hzero hwidth (by omega) (by omega) negative,
      value_leading hwidth exponent⟩

end FloatFormat

end TypedAttr
