import TypedAttr.Number.Quad
import TypedAttr.Proofs.Number.Rounding
import Mathlib.Order.WithBot
/-!
# Doubles as quads

Quads have room for every double: its mantissa is shorter, and its places
lie far inside the range, those of numbers without a leading bit included.
So a double is kept when it is widened (`agrees_widen`), and two doubles
stay two quads, in their order (`widen_exact`). The fields of the quad can
be had from those of the double by shifts (`widen_eq_widenFields`).
-/

namespace TypedAttr

namespace BinaryNumber

/-- A mantissa times a power of two under a sign. -/
def signedValue (negative : Bool) (mantissa : Nat) (exponent : Int) : ℚ :=
  (if negative then -1 else 1) * (mantissa * 2 ^ exponent)

/-- The place on the line of numbers, an infinity at either end. -/
def number? : BinaryNumber → Option (WithBot (WithTop ℚ))
  | .nan _ => none
  | .infinite true => some ⊥
  | .infinite false => some ((⊤ : WithTop ℚ) : WithBot (WithTop ℚ))
  | .finite negative mantissa exponent =>
    some ((signedValue negative mantissa exponent : WithTop ℚ) : WithBot (WithTop ℚ))

/-- The sign, which zero has, too. -/
def isNegative : BinaryNumber → Bool
  | .nan negative => negative
  | .infinite negative => negative
  | .finite negative _ _ => negative

/-- Whether a number is below another. Nothing is below or above a NaN. -/
def IsBelow (left right : BinaryNumber) : Prop :=
  ∃ x ∈ left.number?, ∃ y ∈ right.number?, x < y

/-- That two patterns, of whatever formats, stand for the same under the same
sign. -/
inductive Agrees : BinaryNumber → BinaryNumber → Prop
  | nan (negative : Bool) : Agrees (.nan negative) (.nan negative)
  | infinite (negative : Bool) : Agrees (.infinite negative) (.infinite negative)
  | finite (negative : Bool) {m n : Nat} {e f : Int} (hvalue : (m : ℚ) * 2 ^ e = n * 2 ^ f) :
    Agrees (.finite negative m e) (.finite negative n f)

theorem Agrees.number? {left right : BinaryNumber} (h : left.Agrees right) :
    left.number? = right.number? := by
  cases h with
  | nan | infinite => rfl
  | finite negative hvalue => simp only [BinaryNumber.number?, signedValue, hvalue]

theorem Agrees.isNegative {left right : BinaryNumber} (h : left.Agrees right) :
    left.isNegative = right.isNegative := by
  cases h <;> rfl

theorem Agrees.isNaN {left right : BinaryNumber} (h : left.Agrees right) :
    left.isNaN = right.isNaN := by
  cases h <;> rfl

/-- Numbers of one sign are as far from zero. -/
theorem value_eq_of_number? {negative : Bool} {m n : Nat} {e f : Int}
    (h : (finite negative m e).number? = (finite negative n f).number?) :
    (m : ℚ) * 2 ^ e = n * 2 ^ f := by
  have hvalue : signedValue negative m e = signedValue negative n f := by
    simpa [number?] using h
  cases negative with
  | true => simpa [signedValue] using hvalue
  | false => simpa [signedValue] using hvalue

end BinaryNumber

namespace FloatFormat

open BinaryNumber

/-- **A pattern is told by its number and its sign**, unless it is none. -/
theorem eq_of_number? {format : FloatFormat} {left right : BitVec format.bits}
    (hnumber : (format.decode left).isNaN = false)
    (h : (format.decode left).number? = (format.decode right).number?)
    (hsign : (format.decode left).isNegative = (format.decode right).isNegative) :
    left = right := by
  cases hleft : format.decode left with
  | nan => rw [hleft] at hnumber; cases hnumber
  | infinite negative =>
    cases hright : format.decode right with
    | nan => rw [hleft, hright] at h; cases negative <;> simp [number?] at h
    | infinite =>
      rw [hleft, hright] at hsign
      obtain rfl : negative = _ := hsign
      rw [eq_infinity_of_decode hleft, eq_infinity_of_decode hright]
    | finite => rw [hleft, hright] at h; cases negative <;> simp [number?] at h
  | finite negative m e =>
    cases hright : format.decode right with
    | nan => rw [hleft, hright] at h; simp [number?] at h
    | infinite sign => rw [hleft, hright] at h; cases sign <;> simp [number?] at h
    | finite sign n f =>
      rw [hleft, hright] at h hsign
      obtain rfl : negative = sign := hsign
      rw [← round_decode hleft, ← round_decode hright,
        round_eq_of_value (value_eq_of_number? h)]

end FloatFormat

namespace Quad

open FloatFormat

/-- The mantissa and the last place of a double. -/
theorem double_bounds {pattern : BitVec FloatFormat.double.bits} {negative : Bool} {m : Nat}
    {e : Int} (h : FloatFormat.double.decode pattern = .finite negative m e) :
    m < 2 ^ 53 ∧ -1074 ≤ e ∧ e ≤ 971 := by
  rcases finite_cases h with ⟨hm, rfl, -⟩ | ⟨above, habove, -, hm, rfl, -⟩
  · rw [double_fractionBits] at hm
    rw [double_leastPlace]
    omega
  · rw [double_fractionBits] at hm
    rw [double_topExponent] at habove
    rw [double_leastPlace]
    omega

/-- The places of a double are places of a quad, from the leading bit down. -/
theorem quad_places {m : Nat} {e : Int} (hzero : m ≠ 0) (hm : m < 2 ^ 53) (hlow : -1074 ≤ e)
    (hhigh : e ≤ 971) :
    ∃ above : Nat, above + 1 < FloatFormat.quad.topExponent ∧
      e + m.log2 - FloatFormat.quad.fractionBits = FloatFormat.quad.leastPlace + above := by
  have hlog : m.log2 < 53 := (Nat.log2_lt hzero).2 hm
  rw [quad_topExponent, quad_leastPlace, quad_fractionBits]
  exact ⟨(e + m.log2 - 112 + 16494).toNat, by omega, by omega⟩

/-- **What a widened double stands for**: its leading bit is at the top. -/
theorem decode_widen {pattern : BitVec FloatFormat.double.bits} {negative : Bool} {m : Nat}
    {e : Int} (h : FloatFormat.double.decode pattern = .finite negative m e) (hzero : m ≠ 0) :
    FloatFormat.quad.decode (widen pattern) =
      .finite negative (m * 2 ^ (112 - m.log2)) (e + m.log2 - 112) := by
  obtain ⟨hm, hlow, hhigh⟩ := double_bounds h
  obtain ⟨above, htop, hplace⟩ := quad_places hzero hm hlow hhigh
  have hwidth : m < 2 ^ (FloatFormat.quad.fractionBits + 1) :=
    Nat.lt_trans hm (by decide)
  rw [widen, convert, h]
  exact decode_round hzero hwidth (by omega) (by omega) negative

/-- Zero keeps its sign. -/
theorem decode_widen_zero {pattern : BitVec FloatFormat.double.bits} {negative : Bool} {e : Int}
    (h : FloatFormat.double.decode pattern = .finite negative 0 e) :
    FloatFormat.quad.decode (widen pattern) = .finite negative 0 FloatFormat.quad.leastPlace := by
  rw [widen, convert, h]
  exact decode_zero negative

/-- **A widened double stands for the same** as the double. -/
theorem agrees_widen (pattern : BitVec FloatFormat.double.bits) :
    (FloatFormat.double.decode pattern).Agrees (FloatFormat.quad.decode (widen pattern)) := by
  cases hdecode : FloatFormat.double.decode pattern with
  | nan negative =>
    rw [widen, convert, hdecode, encode, decode_quietNaN]
    exact .nan negative
  | infinite negative =>
    rw [widen, convert, hdecode, encode, decode_infinity]
    exact .infinite negative
  | finite negative m e =>
    obtain ⟨hm, hlow, hhigh⟩ := double_bounds hdecode
    have hwidth : m < 2 ^ (FloatFormat.quad.fractionBits + 1) := Nat.lt_trans hm (by decide)
    have hleast : FloatFormat.quad.leastPlace + FloatFormat.quad.fractionBits ≤ e := by
      rw [quad_leastPlace, quad_fractionBits]
      omega
    have hmost : e - FloatFormat.quad.leastPlace + 1 < FloatFormat.quad.topExponent := by
      rw [quad_leastPlace, quad_topExponent]
      omega
    obtain ⟨n, f, hwide, hvalue⟩ := isOf_round hwidth hleast hmost negative
    rw [widen, convert, hdecode, encode, hwide]
    exact .finite negative hvalue.symm

/-- Doubles that are widened to one quad are one double. -/
theorem eq_of_widen {left right : BitVec FloatFormat.double.bits}
    (hnumber : (FloatFormat.double.decode left).isNaN = false) (h : widen left = widen right) :
    left = right := by
  refine eq_of_number? hnumber ?_ ?_
  · rw [(agrees_widen left).number?, (agrees_widen right).number?, h]
  · rw [(agrees_widen left).isNegative, (agrees_widen right).isNegative, h]

/-! ## Widening by fields -/

/-- The zeros above the leading bit in a word of some width. -/
def leadingZeros (width n : Nat) : Nat := width - 1 - n.log2

/-- The quad of a double, field by field. The exponent field is moved from
one bias to the other, and the fraction to the top of its field. A double
without a leading bit gets one: its fraction is shifted until the highest
bit that is set falls out of the field. -/
def widenFields (pattern : BitVec FloatFormat.double.bits) : Pattern :=
  let negative := pattern.msb
  let exponent := FloatFormat.double.exponentField pattern
  let fraction := FloatFormat.double.fractionField pattern
  if exponent = 0x7ff then
    FloatFormat.quad.ofFields negative 0x7fff (if fraction = 0 then 0 else 1 <<< (112 - 1))
  else if exponent = 0 ∧ fraction = 0 then
    FloatFormat.quad.ofFields negative 0 0
  else if exponent = 0 then
    let shift := leadingZeros 128 fraction - (128 - 52) + 1
    let leading : Int := -1022 - shift
    FloatFormat.quad.ofFields negative (leading + 16383).toNat
      ((fraction <<< shift % 2 ^ 52) <<< (112 - 52))
  else
    let leading : Int := exponent - 1023
    FloatFormat.quad.ofFields negative (leading + 16383).toNat (fraction <<< (112 - 52))

/-- A leading bit that fell out of its field counts one in the field above. -/
theorem quad_fields {above mantissa : Nat} (h : 2 ^ 112 ≤ mantissa) (negative : Bool) :
    FloatFormat.quad.signed negative (above * 2 ^ 112 + mantissa) =
      FloatFormat.quad.ofFields negative (above + 1) (mantissa - 2 ^ 112) := by
  rw [ofFields, quad_fractionBits, Nat.succ_mul, Nat.add_assoc, Nat.add_sub_cancel' h]

/-- A fraction without a leading bit, shifted until it has one. -/
theorem round_quad_subnormal {fraction : Nat} (hzero : fraction ≠ 0)
    (hfraction : fraction < 2 ^ 52) (negative : Bool) :
    FloatFormat.quad.round negative fraction (-1074) =
      FloatFormat.quad.ofFields negative
        (-1022 - ((leadingZeros 128 fraction - (128 - 52) + 1 : Nat) : Int) + 16383).toNat
        ((fraction <<< (leadingZeros 128 fraction - (128 - 52) + 1) % 2 ^ 52) <<< (112 - 52)) := by
  have hlog : fraction.log2 < 52 := (Nat.log2_lt hzero).2 hfraction
  have hshift : leadingZeros 128 fraction - (128 - 52) + 1 = 52 - fraction.log2 := by
    rw [leadingZeros]
    omega
  have hfield : (-1022 - ((52 - fraction.log2 : Nat) : Int) + 16383).toNat =
      15308 + fraction.log2 + 1 := by omega
  have hwidth : fraction < 2 ^ (FloatFormat.quad.fractionBits + 1) :=
    Nat.lt_trans hfraction (by decide)
  -- the fraction has its leading bit at place 52, and sixty zeros follow it
  obtain ⟨hlow, hhigh⟩ := leading_bounds 52 hzero (by omega)
  have hmantissa : fraction * 2 ^ (112 - fraction.log2) =
      fraction * 2 ^ (52 - fraction.log2) * 2 ^ 60 := by
    rw [Nat.mul_assoc, ← Nat.pow_add]
    congr 2
    omega
  rw [round_leading (15308 + fraction.log2) hzero hwidth
      (by rw [quad_leastPlace, quad_fractionBits]; omega) (by rw [quad_topExponent]; omega),
    quad_fractionBits, hmantissa, quad_fields (by omega), hshift, hfield, Nat.shiftLeft_eq,
    Nat.shiftLeft_eq, Nat.mod_eq_sub_mod hlow, Nat.mod_eq_of_lt (by omega), Nat.sub_mul]
  rfl

/-- A fraction below a leading bit, in the wider field. -/
theorem round_quad_normal {exponent fraction : Nat} (hexponent : exponent ≠ 0)
    (hlt : exponent < 0x7ff) (hfraction : fraction < 2 ^ 52) (negative : Bool) :
    FloatFormat.quad.round negative (2 ^ 52 + fraction) (-1074 + (exponent - 1 : Nat)) =
      FloatFormat.quad.ofFields negative ((exponent : Int) - 1023 + 16383).toNat
        (fraction <<< (112 - 52)) := by
  have hzero : 2 ^ 52 + fraction ≠ 0 := by omega
  have hlog : (2 ^ 52 + fraction).log2 = 52 := (Nat.log2_eq_iff hzero).2 (by omega)
  have hfield : ((exponent : Int) - 1023 + 16383).toNat = exponent + 15359 + 1 := by omega
  have hwidth : 2 ^ 52 + fraction < 2 ^ (FloatFormat.quad.fractionBits + 1) :=
    Nat.lt_trans (m := 2 ^ 53) (by omega) (by decide)
  have hrest : (2 ^ 52 + fraction) * 2 ^ (112 - 52) - 2 ^ 112 = fraction * 2 ^ (112 - 52) := by
    omega
  rw [round_leading (exponent + 15359) hzero hwidth
      (by rw [quad_leastPlace, quad_fractionBits, hlog]; omega) (by rw [quad_topExponent]; omega),
    quad_fractionBits, hlog, quad_fields (by omega), hrest, hfield, Nat.shiftLeft_eq]

/-- **Widening is by fields**, whatever the double stands for. -/
theorem widen_eq_widenFields (pattern : BitVec FloatFormat.double.bits) :
    widen pattern = widenFields pattern := by
  obtain ⟨negative, exponent, fraction, hexponent, hfraction, rfl⟩ := exists_ofFields pattern
  have hwidth : exponent < 2 ^ 11 := hexponent
  rw [widen, convert, decode_ofFields hexponent hfraction]
  simp only [widenFields, msb_ofFields hexponent hfraction,
    exponentField_ofFields hexponent hfraction, fractionField_ofFields hexponent hfraction]
  rw [double_topExponent]
  by_cases hinfinite : exponent = 0x7ff
  · rw [if_pos hinfinite, if_pos hinfinite]
    split <;> rfl
  rw [if_neg hinfinite, if_neg hinfinite]
  by_cases hexponent : exponent = 0
  · rw [if_pos hexponent]
    by_cases hzero : fraction = 0
    · rw [if_pos ⟨hexponent, hzero⟩, hzero]
      rfl
    · rw [if_neg fun h => hzero h.2, if_pos hexponent]
      exact round_quad_subnormal hzero hfraction negative
  · rw [if_neg hexponent, if_neg fun h => hexponent h.1, if_neg hexponent]
    exact round_quad_normal hexponent (by omega) hfraction negative

/-! ## Exactness -/

theorem isNaN_eq (pattern : Pattern) : isNaN pattern = (FloatFormat.quad.decode pattern).isNaN := by
  rw [isNaN]
  cases FloatFormat.quad.decode pattern <;> rfl

/-- **Widening is exact.** What comes out of the shifts stands for the very
number that the double stands for, under its sign, be it a number with or
without a leading bit, a zero or an infinity, and for none only if the
double does. So no two numbers are widened to one, and their order stays. -/
theorem widen_exact :
    (∀ pattern, widen pattern = widenFields pattern) ∧
    (∀ pattern, (FloatFormat.double.decode pattern).Agrees
      (FloatFormat.quad.decode (widen pattern))) ∧
    (∀ pattern, isNaN (widen pattern) = (FloatFormat.double.decode pattern).isNaN) ∧
    (∀ left right, (FloatFormat.double.decode left).isNaN = false →
      (FloatFormat.double.decode right).isNaN = false →
      (widen left = widen right ↔ left = right)) ∧
    ∀ left right, (FloatFormat.quad.decode (widen left)).IsBelow
        (FloatFormat.quad.decode (widen right)) ↔
      (FloatFormat.double.decode left).IsBelow (FloatFormat.double.decode right) := by
  refine ⟨widen_eq_widenFields, agrees_widen, fun pattern => ?_, fun left right hnumber _ => ?_,
    fun left right => ?_⟩
  · rw [isNaN_eq, (agrees_widen pattern).isNaN]
  · exact ⟨eq_of_widen hnumber, congrArg widen⟩
  · rw [BinaryNumber.IsBelow, BinaryNumber.IsBelow, (agrees_widen left).number?,
      (agrees_widen right).number?]

/-- The two numbers next to zero. -/
theorem widen_exact_least :
    let least : BitVec FloatFormat.double.bits := 1
    let opposite : BitVec FloatFormat.double.bits := 0x8000000000000001
    widen least = 0x3bcd0000000000000000000000000000 ∧
      (FloatFormat.double.decode least).isNaN = false ∧
      (FloatFormat.double.decode opposite).isNaN = false ∧ widen least ≠ widen opposite := by
  intro least opposite
  have hleast : (FloatFormat.double.decode least).isNaN = false := by decide
  have hopposite : (FloatFormat.double.decode opposite).isNaN = false := by decide
  refine ⟨?_, hleast, hopposite, ?_⟩
  · rw [widen_exact.1 least]
    decide
  · rw [Ne, widen_exact.2.2.2.1 least opposite hleast hopposite]
    decide

end Quad

end TypedAttr
