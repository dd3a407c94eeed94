import TypedAttr.Number.Arithmetic
import Mathlib.Tactic.Ring
/-!
# Patterns and their fields

A pattern is its sign above its exponent field above its fraction field
(`ofFields_fields`), and `decode` reads the three off again. So each of the
four kinds of patterns, for infinities, NaNs, numbers with a leading bit and
numbers without, has one lemma that reads it (`decode_infinity`,
`decode_quietNaN`, `decode_normal`, `decode_subnormal`), and a finite
pattern is of one of the last two kinds (`finite_cases`).
-/

namespace TypedAttr

namespace FloatFormat

variable (format : FloatFormat)

/-! ## Widths -/

theorem bits_eq : format.bits = format.exponentBits + format.fractionBits + 1 := by
  cases format <;> rfl

theorem two_le_exponentBits : 2 ≤ format.exponentBits := by
  cases format <;> decide

theorem fractionBits_pos : 0 < format.fractionBits := by
  cases format <;> decide

/-- The fields below the sign fill all bits but one. -/
theorem two_pow_fields :
    2 ^ (format.bits - 1) = 2 ^ format.exponentBits * 2 ^ format.fractionBits := by
  rw [bits_eq, Nat.add_sub_cancel, Nat.pow_add]

theorem topExponent_lt : format.topExponent < 2 ^ format.exponentBits := by
  have := Nat.two_pow_pos format.exponentBits
  simp only [topExponent, Nat.pow_eq]
  omega

theorem three_le_topExponent : 3 ≤ format.topExponent := by
  have := Nat.pow_le_pow_right (n := 2) (by omega) format.two_le_exponentBits
  simp only [topExponent, Nat.pow_eq]
  omega

theorem double_fractionBits : FloatFormat.double.fractionBits = 52 := rfl

theorem double_topExponent : FloatFormat.double.topExponent = 2047 := rfl

theorem double_leastPlace : FloatFormat.double.leastPlace = -1074 := rfl

theorem quad_fractionBits : FloatFormat.quad.fractionBits = 112 := rfl

theorem quad_topExponent : FloatFormat.quad.topExponent = 32767 := rfl

theorem quad_leastPlace : FloatFormat.quad.leastPlace = -16494 := rfl

/-! ## The fields of a pattern -/

variable {format}

theorem fractionField_lt (pattern : BitVec format.bits) :
    format.fractionField pattern < 2 ^ format.fractionBits :=
  Nat.mod_lt _ (Nat.two_pow_pos _)

theorem exponentField_lt (pattern : BitVec format.bits) :
    format.exponentField pattern < 2 ^ format.exponentBits :=
  Nat.mod_lt _ (Nat.two_pow_pos _)

/-- Fields of their widths fit below the sign. -/
theorem fields_lt {exponent fraction : Nat} (hexponent : exponent < 2 ^ format.exponentBits)
    (hfraction : fraction < 2 ^ format.fractionBits) :
    exponent * 2 ^ format.fractionBits + fraction < 2 ^ (format.bits - 1) := by
  have hstep := Nat.mul_le_mul_right (2 ^ format.fractionBits) (Nat.succ_le_of_lt hexponent)
  rw [Nat.succ_mul] at hstep
  rw [two_pow_fields]
  omega

theorem toNat_signed {fields : Nat} (h : fields < 2 ^ (format.bits - 1)) (negative : Bool) :
    (format.signed negative fields).toNat =
      (if negative then 2 ^ (format.bits - 1) else 0) + fields := by
  have hbits : 2 ^ format.bits = 2 ^ (format.bits - 1) + 2 ^ (format.bits - 1) := by
    rw [bits_eq, Nat.add_sub_cancel, Nat.pow_succ]
    omega
  rw [signed, BitVec.toNat_ofNat, Nat.pow_eq, Nat.mod_eq_of_lt]
  split <;> omega

/-- The sign is the highest bit. -/
theorem msb_signed {fields : Nat} (h : fields < 2 ^ (format.bits - 1)) (negative : Bool) :
    (format.signed negative fields).msb = negative := by
  rw [BitVec.msb_eq_decide, toNat_signed h]
  cases negative with
  | true => simp
  | false => simpa using h

/-- A pattern from its fields. -/
def ofFields (format : FloatFormat) (negative : Bool) (exponent fraction : Nat) :
    BitVec format.bits :=
  format.signed negative (exponent * 2 ^ format.fractionBits + fraction)

theorem fractionField_ofFields {exponent fraction : Nat}
    (hexponent : exponent < 2 ^ format.exponentBits)
    (hfraction : fraction < 2 ^ format.fractionBits) (negative : Bool) :
    format.fractionField (format.ofFields negative exponent fraction) = fraction := by
  rw [fractionField, ofFields, toNat_signed (fields_lt hexponent hfraction), Nat.pow_eq,
    two_pow_fields]
  cases negative with
  | true =>
    rw [if_pos rfl, ← Nat.add_assoc, ← Nat.add_mul, Nat.mul_add_mod_self_right,
      Nat.mod_eq_of_lt hfraction]
  | false =>
    rw [if_neg Bool.false_ne_true, Nat.zero_add, Nat.mul_add_mod_self_right,
      Nat.mod_eq_of_lt hfraction]

theorem exponentField_ofFields {exponent fraction : Nat}
    (hexponent : exponent < 2 ^ format.exponentBits)
    (hfraction : fraction < 2 ^ format.fractionBits) (negative : Bool) :
    format.exponentField (format.ofFields negative exponent fraction) = exponent := by
  have hpos := Nat.two_pow_pos format.fractionBits
  rw [exponentField, ofFields, toNat_signed (fields_lt hexponent hfraction), Nat.pow_eq,
    Nat.pow_eq, two_pow_fields]
  cases negative with
  | true =>
    rw [if_pos rfl, ← Nat.add_assoc, ← Nat.add_mul, Nat.add_comm, Nat.add_mul_div_right _ _ hpos,
      Nat.div_eq_of_lt hfraction, Nat.zero_add, Nat.add_mod_left, Nat.mod_eq_of_lt hexponent]
  | false =>
    rw [if_neg Bool.false_ne_true, Nat.zero_add, Nat.add_comm, Nat.add_mul_div_right _ _ hpos,
      Nat.div_eq_of_lt hfraction, Nat.zero_add, Nat.mod_eq_of_lt hexponent]

theorem msb_ofFields {exponent fraction : Nat}
    (hexponent : exponent < 2 ^ format.exponentBits)
    (hfraction : fraction < 2 ^ format.fractionBits) (negative : Bool) :
    (format.ofFields negative exponent fraction).msb = negative :=
  msb_signed (fields_lt hexponent hfraction) negative

/-- **A pattern is made of its fields.** -/
theorem ofFields_fields (pattern : BitVec format.bits) :
    format.ofFields pattern.msb (format.exponentField pattern) (format.fractionField pattern) =
      pattern := by
  have hfields := fields_lt (exponentField_lt pattern) (fractionField_lt pattern)
  apply BitVec.eq_of_toNat_eq
  rw [ofFields, toNat_signed hfields, BitVec.msb_eq_decide]
  -- what is below the sign is the rest of a division
  have hlower : format.exponentField pattern * 2 ^ format.fractionBits +
      format.fractionField pattern = pattern.toNat % 2 ^ (format.bits - 1) := by
    rw [exponentField, fractionField, Nat.pow_eq, Nat.pow_eq, two_pow_fields, Nat.mul_comm,
      Nat.mul_comm (2 ^ format.exponentBits), Nat.mod_mul, Nat.add_comm]
  have hbits : 2 ^ format.bits = 2 ^ (format.bits - 1) + 2 ^ (format.bits - 1) := by
    rw [bits_eq, Nat.add_sub_cancel, Nat.pow_succ]
    omega
  have hlt := pattern.isLt
  rw [hlower]
  by_cases h : 2 ^ (format.bits - 1) ≤ pattern.toNat
  · rw [if_pos (by simpa using h), Nat.mod_eq_sub_mod h, Nat.mod_eq_of_lt (by omega)]
    omega
  · rw [if_neg (by simpa using h), Nat.mod_eq_of_lt (by omega), Nat.zero_add]

theorem exists_ofFields (pattern : BitVec format.bits) :
    ∃ negative exponent fraction, exponent < 2 ^ format.exponentBits ∧
      fraction < 2 ^ format.fractionBits ∧ pattern = format.ofFields negative exponent fraction :=
  ⟨_, _, _, exponentField_lt pattern, fractionField_lt pattern, (ofFields_fields pattern).symm⟩

/-! ## What patterns stand for -/

theorem decode_ofFields {exponent fraction : Nat}
    (hexponent : exponent < 2 ^ format.exponentBits)
    (hfraction : fraction < 2 ^ format.fractionBits) (negative : Bool) :
    format.decode (format.ofFields negative exponent fraction) =
      if exponent = format.topExponent then
        if fraction = 0 then .infinite negative else .nan negative
      else if exponent = 0 then .finite negative fraction format.leastPlace
      else .finite negative (2 ^ format.fractionBits + fraction)
        (format.leastPlace + (exponent - 1 : Nat)) := by
  simp only [decode, exponentField_ofFields hexponent hfraction,
    fractionField_ofFields hexponent hfraction, msb_ofFields hexponent hfraction, Nat.pow_eq]

theorem decode_infinity (negative : Bool) :
    format.decode (format.infinity negative) = .infinite negative := by
  have h := decode_ofFields format.topExponent_lt (Nat.two_pow_pos format.fractionBits) negative
  rwa [if_pos rfl, if_pos rfl] at h

theorem decode_quietNaN (negative : Bool) :
    format.decode (format.quietNaN negative) = .nan negative := by
  have hpos := format.fractionBits_pos
  have hquiet : 2 ^ (format.fractionBits - 1) < 2 ^ format.fractionBits :=
    Nat.pow_lt_pow_right (by omega) (by omega)
  have hne := Nat.two_pow_pos (format.fractionBits - 1)
  have h := decode_ofFields format.topExponent_lt hquiet negative
  rwa [if_pos rfl, if_neg (by omega)] at h

/-- A number without a leading bit is its fraction field, in last places. -/
theorem decode_subnormal {fraction : Nat} (h : fraction < 2 ^ format.fractionBits)
    (negative : Bool) :
    format.decode (format.signed negative fraction) =
      .finite negative fraction format.leastPlace := by
  have htop := format.three_le_topExponent
  have hfields := decode_ofFields (Nat.two_pow_pos format.exponentBits) h negative
  rw [if_neg (by omega), if_pos rfl, ofFields, Nat.zero_mul, Nat.zero_add] at hfields
  exact hfields

/-- A number with a leading bit, `above` places above the least. -/
theorem decode_normal {above mantissa : Nat} (habove : above + 1 < format.topExponent)
    (hlow : 2 ^ format.fractionBits ≤ mantissa) (hhigh : mantissa < 2 ^ (format.fractionBits + 1))
    (negative : Bool) :
    format.decode (format.signed negative (above * 2 ^ format.fractionBits + mantissa)) =
      .finite negative mantissa (format.leastPlace + above) := by
  obtain ⟨fraction, rfl⟩ := Nat.exists_eq_add_of_le hlow
  rw [Nat.pow_succ] at hhigh
  have htop := format.topExponent_lt
  have hexponent : above + 1 < 2 ^ format.exponentBits := by omega
  have hfraction : fraction < 2 ^ format.fractionBits := by omega
  have hfields := decode_ofFields hexponent hfraction negative
  rw [if_neg (by omega), if_neg (by omega), ofFields, Nat.succ_mul, Nat.add_assoc] at hfields
  exact hfields

/-- **The two kinds of finite patterns**: without a leading bit, and with
one some places above the least. -/
theorem finite_cases {pattern : BitVec format.bits} {negative : Bool} {mantissa : Nat}
    {exponent : Int} (h : format.decode pattern = .finite negative mantissa exponent) :
    (mantissa < 2 ^ format.fractionBits ∧ exponent = format.leastPlace ∧
      pattern = format.signed negative mantissa) ∨
    ∃ above : Nat, above + 1 < format.topExponent ∧ 2 ^ format.fractionBits ≤ mantissa ∧
      mantissa < 2 ^ (format.fractionBits + 1) ∧ exponent = format.leastPlace + above ∧
      pattern = format.signed negative (above * 2 ^ format.fractionBits + mantissa) := by
  obtain ⟨sign, field, fraction, hfield, hfraction, rfl⟩ := exists_ofFields pattern
  have htop : format.topExponent = 2 ^ format.exponentBits - 1 := rfl
  rw [decode_ofFields hfield hfraction] at h
  split at h
  · split at h <;> cases h
  · split at h
    case isTrue hzero =>
      cases h
      subst hzero
      exact Or.inl ⟨hfraction, rfl, by rw [ofFields, Nat.zero_mul, Nat.zero_add]⟩
    case isFalse hnot hpos =>
      cases h
      obtain ⟨above, rfl⟩ := Nat.exists_eq_succ_of_ne_zero hpos
      refine Or.inr ⟨above, by omega, by omega, by rw [Nat.pow_succ]; omega, rfl, ?_⟩
      rw [ofFields, Nat.succ_mul, Nat.add_assoc]

/-- Only one pattern of each sign stands for infinity. -/
theorem eq_infinity_of_decode {pattern : BitVec format.bits} {negative : Bool}
    (h : format.decode pattern = .infinite negative) : pattern = format.infinity negative := by
  obtain ⟨sign, field, fraction, hfield, hfraction, rfl⟩ := exists_ofFields pattern
  rw [decode_ofFields hfield hfraction] at h
  split at h
  case isTrue htop =>
    split at h
    case isTrue hzero =>
      cases h
      subst htop hzero
      rfl
    case isFalse => cases h
  case isFalse => split at h <;> cases h

end FloatFormat

end TypedAttr
