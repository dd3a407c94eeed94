import TypedAttr.Number.Integer
/-!
# Binary floating point

Four interchange formats and the exact numbers behind their patterns. A
finite pattern stands for a natural mantissa times a power of two
(`FloatFormat.decode`), and `FloatFormat.round` is the pattern nearest to
such a number, a tie going to the even neighbour. All arithmetic is on
naturals and integers, so it is exact.
-/

namespace TypedAttr

/-- The binary formats of two, four, eight and sixteen bytes. -/
inductive FloatFormat where
  | half
  | single
  | double
  | quad
  deriving DecidableEq, Inhabited

/-- What a pattern stands for. A finite number is its mantissa times two to
its exponent, under its sign. -/
inductive BinaryNumber where
  | nan (negative : Bool)
  | infinite (negative : Bool)
  | finite (negative : Bool) (mantissa : Nat) (exponent : Int)
  deriving DecidableEq, Inhabited

namespace FloatFormat

/-- The count of bytes of a pattern. -/
def bytes : FloatFormat → Nat
  | .half => 2
  | .single => 4
  | .double => 8
  | .quad => 16

/-- The format of that many bytes, if there is one. -/
def ofBytes? : Nat → Option FloatFormat
  | 2 => some .half
  | 4 => some .single
  | 8 => some .double
  | 16 => some .quad
  | _ => none

/-- The width in bits. -/
abbrev bits (format : FloatFormat) : Nat := 8 * format.bytes

/-- The name of the format, such as `float32`. -/
def name (format : FloatFormat) : String := "float" ++ toString format.bits

/-- The format of a name. -/
def ofName? (name : String) : Option FloatFormat :=
  [half, single, double, quad].find? (·.name == name)

/-- The width of the fraction field. -/
def fractionBits : FloatFormat → Nat
  | .half => 10
  | .single => 23
  | .double => 52
  | .quad => 112

/-- The width of the exponent field. -/
def exponentBits (format : FloatFormat) : Nat :=
  format.bits - 1 - format.fractionBits

/-- The exponent field of infinities and NaNs, all ones. -/
def topExponent (format : FloatFormat) : Nat := Nat.pow 2 format.exponentBits - 1

/-- What is added to the exponent of a number's leading bit in its field. -/
def bias (format : FloatFormat) : Nat := Nat.pow 2 (format.exponentBits - 1) - 1

/-- The exponent of the last place of the smallest numbers. -/
def leastPlace (format : FloatFormat) : Int :=
  1 - (format.bias : Int) - format.fractionBits

@[simp] theorem ofBytes?_bytes (format : FloatFormat) : ofBytes? format.bytes = some format := by
  cases format <;> rfl

/-- A format is found only for its own count of bytes. -/
theorem bytes_of_ofBytes? {n : Nat} {format : FloatFormat} (h : ofBytes? n = some format) :
    format.bytes = n := by
  unfold ofBytes? at h
  split at h <;> cases h <;> rfl

/-! ## Patterns and numbers -/

/-- The fraction field of a pattern. -/
def fractionField (format : FloatFormat) (pattern : BitVec format.bits) : Nat :=
  pattern.toNat % Nat.pow 2 format.fractionBits

/-- The exponent field of a pattern. -/
def exponentField (format : FloatFormat) (pattern : BitVec format.bits) : Nat :=
  pattern.toNat / Nat.pow 2 format.fractionBits % Nat.pow 2 format.exponentBits

/-- The number that a pattern stands for. -/
def decode (format : FloatFormat) (pattern : BitVec format.bits) : BinaryNumber :=
  let negative := pattern.msb
  let exponent := format.exponentField pattern
  let fraction := format.fractionField pattern
  if exponent = format.topExponent then
    if fraction = 0 then .infinite negative else .nan negative
  else if exponent = 0 then
    .finite negative fraction format.leastPlace
  else
    .finite negative (Nat.pow 2 format.fractionBits + fraction)
      (format.leastPlace + (exponent - 1 : Nat))

/-- The pattern of a sign and the fields below it. -/
def signed (format : FloatFormat) (negative : Bool) (magnitude : Nat) : BitVec format.bits :=
  BitVec.ofNat _ ((if negative then Nat.pow 2 (format.bits - 1) else 0) + magnitude)

/-- The fields of infinity, the least magnitude that no finite pattern has. -/
def infinityMagnitude (format : FloatFormat) : Nat :=
  format.topExponent * Nat.pow 2 format.fractionBits

/-- Zero under a sign. -/
def zero (format : FloatFormat) (negative : Bool) : BitVec format.bits :=
  format.signed negative 0

/-- Infinity under a sign. -/
def infinity (format : FloatFormat) (negative : Bool) : BitVec format.bits :=
  format.signed negative format.infinityMagnitude

/-- The quiet NaN without payload: of the fraction only the top bit is set. -/
def quietNaN (format : FloatFormat) (negative : Bool) : BitVec format.bits :=
  format.signed negative (format.infinityMagnitude + Nat.pow 2 (format.fractionBits - 1))

/-! ## Rounding -/

/-- A quotient by a power of two, rounded to the nearest natural, a tie to
the even one. -/
def halfEven (n shift : Nat) : Nat :=
  let divisor := Nat.pow 2 shift
  let quotient := n / divisor
  let twice := 2 * (n % divisor)
  if twice < divisor then quotient
  else if divisor < twice then quotient + 1
  else quotient + quotient % 2

/-- The exponent of the last place that a format keeps of a number. -/
def lastPlace (format : FloatFormat) (mantissa : Nat) (exponent : Int) : Int :=
  max (exponent + mantissa.log2 - format.fractionBits) format.leastPlace

/-- The fields of the pattern nearest to `mantissa * 2 ^ exponent`.

The count of last places and the place itself add up to the pattern, since
a carry out of the fraction is just what raises the exponent field. -/
def roundMagnitude (format : FloatFormat) (mantissa : Nat) (exponent : Int) : Nat :=
  let place := format.lastPlace mantissa exponent
  let count :=
    if exponent < place then halfEven mantissa (place - exponent).toNat
    else mantissa * Nat.pow 2 (exponent - place).toNat
  min ((place - format.leastPlace).toNat * Nat.pow 2 format.fractionBits + count)
    format.infinityMagnitude

/-- The pattern nearest to a number under a sign. -/
def round (format : FloatFormat) (negative : Bool) (mantissa : Nat) (exponent : Int) :
    BitVec format.bits :=
  if mantissa = 0 then format.zero negative
  else format.signed negative (format.roundMagnitude mantissa exponent)

/-- The pattern of a number: infinities and the sign of NaNs are kept, and
finite numbers are rounded. -/
def encode (format : FloatFormat) : BinaryNumber → BitVec format.bits
  | .nan negative => format.quietNaN negative
  | .infinite negative => format.infinity negative
  | .finite negative mantissa exponent => format.round negative mantissa exponent

/-- A pattern of one format in another. -/
def convert (source target : FloatFormat) (pattern : BitVec source.bits) : BitVec target.bits :=
  target.encode (source.decode pattern)

/-- The pattern nearest to an integer. -/
def ofInt (format : FloatFormat) (n : Int) : BitVec format.bits :=
  format.round (n < 0) n.natAbs 0

end FloatFormat

end TypedAttr
