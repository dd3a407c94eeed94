import TypedAttr.Proofs.Number.Widening
/-!
# Quads as doubles

Narrowing can be had by arithmetic on doubles: the fraction below the
leading bit, cut to the double's width, is divided, one is added, and the
sum is multiplied by the sign and by two powers of two (`narrowInSteps`).
The first steps are exact. Only the last product can round, and it rounds
the number that `narrow` rounds, so the two ways give one double
(`narrow_eq_narrowInSteps`). A widened double loses nothing in either
(`narrow_widen_exact`).
-/

namespace TypedAttr

namespace FloatFormat

variable {format : FloatFormat} {left right : BitVec format.bits} {s t : Bool} {x y : ℚ} {m : Nat}
  {e : Int}

/-! ## Results of arithmetic -/

/-- A product is the rounded product of the numbers. -/
theorem mul_eq_round (hleft : (format.decode left).IsOf s x)
    (hright : (format.decode right).IsOf t y) (h : (m : ℚ) * 2 ^ e = x * y) :
    format.mul left right = format.round (s != t) m e := by
  obtain ⟨a, f, hdecode, rfl⟩ := hleft
  obtain ⟨b, g, hdecode', rfl⟩ := hright
  rw [mul, hdecode, hdecode', BinaryNumber.mul, encode]
  refine round_eq_of_value ?_ _
  rw [h, zpow_add₀ two_ne_zero]
  push_cast
  ring

/-- A sum of numbers of one sign is their rounded sum. -/
theorem add_eq_round (hleft : (format.decode left).IsOf s x)
    (hright : (format.decode right).IsOf s y) (h : (m : ℚ) * 2 ^ e = x + y) :
    format.add left right = format.round s m e := by
  obtain ⟨a, f, hdecode, rfl⟩ := hleft
  obtain ⟨b, g, hdecode', rfl⟩ := hright
  rw [add, hdecode, hdecode', BinaryNumber.add]
  simp only [if_true, encode]
  refine round_eq_of_value ?_ _
  -- both numbers are whole multiples of the lower place
  have hplace (n : Nat) {k : Int} (hk : min f g ≤ k) :
      ((n * Nat.pow 2 (k - min f g).toNat : Nat) : ℚ) * 2 ^ min f g = n * 2 ^ k := by
    have hsum : k = ((k - min f g).toNat : Int) + min f g := by omega
    conv_rhs => rw [hsum, zpow_add₀ two_ne_zero, zpow_natCast]
    rw [Nat.pow_eq]
    push_cast
    ring
  rw [h, Nat.cast_add, add_mul, hplace a (min_le_left f g), hplace b (min_le_right f g)]

/-- A quotient by a power of two is the rounded quotient. -/
theorem div_eq_round {k : Nat} {f : Int} (hleft : (format.decode left).IsOf s x)
    (hright : format.decode right = .finite t (2 ^ k) f) (hk : k ≤ format.quotientPlaces)
    (h : (m : ℚ) * 2 ^ e = x / (2 ^ k * 2 ^ f)) :
    format.div left right = format.round (s != t) m e := by
  obtain ⟨a, g, hdecode, rfl⟩ := hleft
  have hpos := Nat.two_pow_pos k
  have hscaled : a * Nat.pow 2 format.quotientPlaces =
      a * 2 ^ (format.quotientPlaces - k) * 2 ^ k := by
    rw [Nat.pow_eq, Nat.mul_assoc, ← Nat.pow_add, Nat.sub_add_cancel hk]
  rw [div, hdecode, hright, BinaryNumber.div, if_neg (by omega)]
  simp only [hscaled, Nat.mul_div_cancel _ hpos, Nat.mul_mod_left, if_true, encode, Nat.add_zero]
  refine round_eq_of_value ?_ _
  have hexponent : g = (g - f - format.quotientPlaces - 1) + f +
      (format.quotientPlaces - k : Nat) + k + 1 := by omega
  rw [h, eq_div_iff (mul_ne_zero (pow_ne_zero _ two_ne_zero) (zpow_ne_zero _ two_ne_zero))]
  conv_rhs =>
    rw [hexponent, zpow_add₀ two_ne_zero, zpow_add₀ two_ne_zero, zpow_add₀ two_ne_zero,
      zpow_add₀ two_ne_zero, zpow_natCast, zpow_natCast, zpow_one]
  push_cast
  ring

end FloatFormat

namespace Quad

open FloatFormat

/-! ## Narrowing in steps -/

/-- The double that stands for a quad, by arithmetic on doubles. The scale
is split into two powers of two that doubles have. -/
def narrowInSteps (pattern : Pattern) : BitVec FloatFormat.double.bits :=
  let sign := FloatFormat.double.ofInt (if pattern.msb then -1 else 1)
  let exponent := FloatFormat.quad.exponentField pattern
  let fraction := FloatFormat.quad.fractionField pattern
  if exponent = 0x7fff then
    if fraction = 0 then FloatFormat.double.mul sign (FloatFormat.double.infinity false)
    else FloatFormat.double.quietNaN false
  else if exponent = 0 then FloatFormat.double.mul sign (FloatFormat.double.zero false)
  else
    let leading : Int := exponent - 16383
    if leading > 1023 then FloatFormat.double.mul sign (FloatFormat.double.infinity false)
    else if leading < -1074 then FloatFormat.double.mul sign (FloatFormat.double.zero false)
    else
      let part := FloatFormat.double.div (FloatFormat.double.ofInt (fraction >>> (112 - 52) : Nat))
        (FloatFormat.double.ofInt (1 <<< 52 : Nat))
      let half := leading.tdiv 2
      let significand := FloatFormat.double.mul sign
        (FloatFormat.double.add (FloatFormat.double.ofInt 1) part)
      FloatFormat.double.mul
        (FloatFormat.double.mul significand (FloatFormat.double.powerOfTwo half))
        (FloatFormat.double.powerOfTwo (leading - half))

/-- One under a sign. -/
theorem isOf_sign (negative : Bool) :
    (FloatFormat.double.decode
      (FloatFormat.double.ofInt (if negative then -1 else 1))).IsOf negative 1 := by
  cases negative with
  | true => exact ⟨2 ^ 52, -52, by decide, by norm_num⟩
  | false => exact ⟨2 ^ 52, -52, by decide, by norm_num⟩

theorem mul_sign_infinity (negative : Bool) :
    FloatFormat.double.mul (FloatFormat.double.ofInt (if negative then -1 else 1))
      (FloatFormat.double.infinity false) = FloatFormat.double.infinity negative := by
  cases negative <;> decide

theorem mul_sign_zero (negative : Bool) :
    FloatFormat.double.mul (FloatFormat.double.ofInt (if negative then -1 else 1))
      (FloatFormat.double.zero false) = FloatFormat.double.zero negative := by
  cases negative <;> decide

/-- A short mantissa at a place well inside the range is a double. -/
theorem isOf_double {m : Nat} {e : Int} (hm : m < 2 ^ 53) (hlow : -1022 ≤ e) (hhigh : e ≤ 971)
    (negative : Bool) :
    (FloatFormat.double.decode (FloatFormat.double.round negative m e)).IsOf negative
      (m * 2 ^ e) := by
  refine isOf_round hm ?_ ?_ negative
  · rw [double_leastPlace, double_fractionBits]
    omega
  · rw [double_leastPlace, double_topExponent]
    omega

theorem isOf_ofNat {n : Nat} (h : n < 2 ^ 53) :
    (FloatFormat.double.decode (FloatFormat.double.ofInt n)).IsOf false n := by
  have hround := isOf_double (e := 0) h (by omega) (by omega) false
  have hsign : decide ((n : Int) < 0) = false := by simp
  rw [zpow_zero, mul_one] at hround
  rwa [FloatFormat.ofInt, hsign, Int.natAbs_natCast]

theorem isOf_powerOfTwo {k : Int} (hlow : -1022 ≤ k) (hhigh : k ≤ 971) :
    (FloatFormat.double.decode (FloatFormat.double.powerOfTwo k)).IsOf false (2 ^ k) := by
  have hround := isOf_double (m := 1) (by omega) hlow hhigh false
  rwa [Nat.cast_one, one_mul] at hround

/-- The fraction below the leading bit. -/
theorem part_eq_round {n : Nat} (h : n < 2 ^ 52) :
    FloatFormat.double.div (FloatFormat.double.ofInt n)
      (FloatFormat.double.ofInt (1 <<< 52 : Nat)) = FloatFormat.double.round false n (-52) := by
  have hdivisor : FloatFormat.double.decode (FloatFormat.double.ofInt (1 <<< 52 : Nat)) =
      .finite false (2 ^ 52) 0 := by decide
  refine div_eq_round (isOf_ofNat (by omega)) hdivisor (by decide) ?_
  rw [zpow_neg, zpow_zero, mul_one, div_eq_mul_inv]
  norm_cast

/-- One and the fraction below it. -/
theorem sum_eq_round {n : Nat} (h : n < 2 ^ 52) :
    FloatFormat.double.add (FloatFormat.double.ofInt 1)
      (FloatFormat.double.div (FloatFormat.double.ofInt n)
        (FloatFormat.double.ofInt (1 <<< 52 : Nat))) =
      FloatFormat.double.round false (2 ^ 52 + n) (-52) := by
  have hpart := isOf_double (m := n) (e := -52) (by omega) (by omega) (by omega) false
  have hsum : ((2 ^ 52 + n : Nat) : ℚ) * 2 ^ (-52 : Int) = 1 + n * 2 ^ (-52 : Int) := by
    push_cast
    rw [add_mul]
    norm_num
  rw [part_eq_round h]
  exact add_eq_round (isOf_sign false) hpart hsum

/-- Half of an exponent, toward zero, and the other half. -/
theorem half_bounds {leading : Int} (hlow : -1074 ≤ leading) (hhigh : leading ≤ 1023) :
    -537 ≤ leading.tdiv 2 ∧ leading.tdiv 2 ≤ 511 ∧
      -537 ≤ leading - leading.tdiv 2 ∧ leading - leading.tdiv 2 ≤ 512 := by
  have hsign : Int.sign 2 = 1 := rfl
  rw [Int.tdiv_eq_ediv, hsign]
  split <;> omega

/-- **The product.** Neither half of the scale leaves the range of doubles,
and no product but the last can round. -/
theorem product_eq_round {n : Nat} (h : n < 2 ^ 52) (negative : Bool) {leading : Int}
    (hlow : -1074 ≤ leading) (hhigh : leading ≤ 1023) :
    FloatFormat.double.mul
      (FloatFormat.double.mul
        (FloatFormat.double.mul (FloatFormat.double.ofInt (if negative then -1 else 1))
          (FloatFormat.double.add (FloatFormat.double.ofInt 1)
            (FloatFormat.double.div (FloatFormat.double.ofInt n)
              (FloatFormat.double.ofInt (1 <<< 52 : Nat)))))
        (FloatFormat.double.powerOfTwo (leading.tdiv 2)))
      (FloatFormat.double.powerOfTwo (leading - leading.tdiv 2)) =
      FloatFormat.double.round negative (2 ^ 52 + n) (leading - 52) := by
  obtain ⟨hhalf, hhalf', hother, hother'⟩ := half_bounds hlow hhigh
  have hwidth : 2 ^ 52 + n < 2 ^ 53 := by omega
  have hscale (e k : Int) : ((2 ^ 52 + n : Nat) : ℚ) * 2 ^ (e + k) =
      (2 ^ 52 + n : Nat) * 2 ^ e * 2 ^ k := by
    rw [zpow_add₀ two_ne_zero, mul_assoc]
  have hsigned : FloatFormat.double.mul (FloatFormat.double.ofInt (if negative then -1 else 1))
      (FloatFormat.double.add (FloatFormat.double.ofInt 1)
        (FloatFormat.double.div (FloatFormat.double.ofInt n)
          (FloatFormat.double.ofInt (1 <<< 52 : Nat)))) =
      FloatFormat.double.round negative (2 ^ 52 + n) (-52) := by
    rw [sum_eq_round h, mul_eq_round (isOf_sign negative)
      (isOf_double hwidth (by omega) (by omega) false) (one_mul _).symm, Bool.bne_false]
  have hfirst : FloatFormat.double.mul (FloatFormat.double.round negative (2 ^ 52 + n) (-52))
      (FloatFormat.double.powerOfTwo (leading.tdiv 2)) =
      FloatFormat.double.round negative (2 ^ 52 + n) (-52 + leading.tdiv 2) := by
    rw [mul_eq_round (isOf_double hwidth (by omega) (by omega) negative)
      (isOf_powerOfTwo (by omega) (by omega)) (hscale _ _), Bool.bne_false]
  have hexponent : leading - 52 = -52 + leading.tdiv 2 + (leading - leading.tdiv 2) := by omega
  rw [hsigned, hfirst, mul_eq_round (isOf_double hwidth (by omega) (by omega) negative)
    (isOf_powerOfTwo (by omega) (by omega)) (hscale _ _), Bool.bne_false, hexponent]

/-- How a finite quad is narrowed, by the place of its leading bit. -/
theorem narrow_of_finite {pattern : Pattern} {negative : Bool} {m : Nat} {e : Int}
    (h : FloatFormat.quad.decode pattern = .finite negative m e) :
    narrow pattern =
      if m < 2 ^ 112 then FloatFormat.double.zero negative
      else if e + 112 > 1023 then FloatFormat.double.infinity negative
      else if e + 112 < -1074 then FloatFormat.double.zero negative
      else FloatFormat.double.round negative (m / 2 ^ 60) (e + 60) := by
  rw [narrow, h]
  rfl

/-- **Narrowing is arithmetic on doubles**, whatever the quad stands for. -/
theorem narrow_eq_narrowInSteps (pattern : Pattern) : narrow pattern = narrowInSteps pattern := by
  obtain ⟨negative, exponent, fraction, hexponent, hfraction, rfl⟩ := exists_ofFields pattern
  have hdecode := decode_ofFields hexponent hfraction negative
  simp only [narrowInSteps, msb_ofFields hexponent hfraction,
    exponentField_ofFields hexponent hfraction, fractionField_ofFields hexponent hfraction,
    mul_sign_infinity, mul_sign_zero]
  rw [quad_fractionBits] at hfraction
  rw [quad_topExponent, quad_leastPlace, quad_fractionBits] at hdecode
  by_cases htop : exponent = 0x7fff
  · rw [if_pos htop] at hdecode ⊢
    split at hdecode
    case isTrue hzero => rw [narrow, hdecode, if_pos hzero]
    case isFalse hzero => rw [narrow, hdecode, if_neg hzero]
  rw [if_neg htop] at hdecode ⊢
  by_cases hzero : exponent = 0
  · rw [if_pos hzero] at hdecode ⊢
    rw [narrow_of_finite hdecode, if_pos hfraction]
  rw [if_neg hzero] at hdecode ⊢
  -- the place of the leading bit, from either end
  have hleading : (-16494 + (exponent - 1 : Nat) : Int) + 112 = exponent - 16383 := by omega
  have hmantissa : (2 ^ 112 + fraction) / 2 ^ 60 = 2 ^ 52 + fraction >>> (112 - 52) := by
    rw [Nat.shiftRight_eq_div_pow]
    omega
  have hplace : (-16494 + (exponent - 1 : Nat) : Int) + 60 = exponent - 16383 - 52 := by omega
  rw [narrow_of_finite hdecode, if_neg (by omega), hleading, hmantissa, hplace]
  by_cases hhigh : (exponent : Int) - 16383 > 1023
  · rw [if_pos hhigh, if_pos hhigh]
  rw [if_neg hhigh, if_neg hhigh]
  by_cases hlow : (exponent : Int) - 16383 < -1074
  · rw [if_pos hlow, if_pos hlow]
  rw [if_neg hlow, if_neg hlow]
  have hpart : fraction >>> (112 - 52) < 2 ^ 52 := by
    rw [Nat.shiftRight_eq_div_pow]
    omega
  exact (product_eq_round hpart negative (by omega) (by omega)).symm

/-- **A widened double is narrowed to itself.** -/
theorem narrow_widen {pattern : BitVec FloatFormat.double.bits}
    (h : (FloatFormat.double.decode pattern).isNaN = false) : narrow (widen pattern) = pattern := by
  cases hdecode : FloatFormat.double.decode pattern with
  | nan negative => rw [hdecode] at h; cases h
  | infinite negative =>
    rw [narrow, widen, convert, hdecode, encode, decode_infinity]
    exact (eq_infinity_of_decode hdecode).symm
  | finite negative m e =>
    have hround := round_decode hdecode
    by_cases hzero : m = 0
    · subst hzero
      rw [narrow_of_finite (decode_widen_zero hdecode), if_pos (by decide)]
      exact hround
    · obtain ⟨hm, hlow, hhigh⟩ := double_bounds hdecode
      have hlog : m.log2 < 53 := (Nat.log2_lt hzero).2 hm
      obtain ⟨hleading, -⟩ := leading_bounds 112 hzero (by omega)
      -- the sixty lowest bits of the wider mantissa are zeros
      have hmantissa : m * 2 ^ (112 - m.log2) / 2 ^ 60 = m * 2 ^ (52 - m.log2) := by
        have hsplit : 112 - m.log2 = 52 - m.log2 + 60 := by omega
        rw [hsplit, Nat.pow_add, ← Nat.mul_assoc, Nat.mul_div_cancel _ (Nat.two_pow_pos _)]
      have hexponent : e + m.log2 - 112 + 60 + (52 - m.log2 : Nat) = e := by omega
      rw [narrow_of_finite (decode_widen hdecode hzero), if_neg (by omega), if_neg (by omega),
        if_neg (by omega), hmantissa, round_shift, hexponent, hround]

/-- **Narrowing undoes widening**, for every double that is a number: the
arithmetic that narrows takes the quad apart and puts the same double
together again, and so does `narrow`. -/
theorem narrow_widen_exact (pattern : BitVec FloatFormat.double.bits)
    (h : (FloatFormat.double.decode pattern).isNaN = false) :
    narrowInSteps (widen pattern) = pattern ∧ narrow (widen pattern) = pattern := by
  rw [← narrow_eq_narrowInSteps]
  exact ⟨narrow_widen h, narrow_widen h⟩

/-- The greatest number without a leading bit, below zero. -/
theorem narrow_widen_exact_subnormal :
    let pattern : BitVec FloatFormat.double.bits := 0x800fffffffffffff
    (FloatFormat.double.decode pattern).isNaN = false ∧
      narrowInSteps (widen pattern) = pattern := by
  intro pattern
  have h : (FloatFormat.double.decode pattern).isNaN = false := by decide
  exact ⟨h, (narrow_widen_exact pattern h).1⟩

end Quad

end TypedAttr
