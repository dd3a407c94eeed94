import TypedAttr.Number.Binary
/-!
# Arithmetic on binary floats

Sums, products and quotients of patterns: the exact result on the numbers
that the patterns stand for, rounded once. The numbers are mantissas times
powers of two, and so are their sums and products. A quotient is not, so it
is cut far below the last place of the result, with a last bit that tells
whether anything was cut off; that bit is all that rounding needs to know
of what lies there.
-/

namespace TypedAttr

namespace BinaryNumber

/-- Whether a pattern stands for no number. -/
def isNaN : BinaryNumber → Bool
  | .nan _ => true
  | .infinite _ => false
  | .finite .. => false

/-- The product. Infinity times zero is no number. -/
def mul : BinaryNumber → BinaryNumber → BinaryNumber
  | .finite s m e, .finite t n f => .finite (s != t) (m * n) (e + f)
  | .infinite s, .finite t n _ => if n = 0 then .nan false else .infinite (s != t)
  | .finite s m _, .infinite t => if m = 0 then .nan false else .infinite (s != t)
  | .infinite s, .infinite t => .infinite (s != t)
  | .nan _, _ => .nan false
  | _, .nan _ => .nan false

/-- The sum, at the lower of the two exponents. What cancels out is zero
without a sign, and so do not infinities of unlike sign. -/
def add : BinaryNumber → BinaryNumber → BinaryNumber
  | .finite s m e, .finite t n f =>
    let place := min e f
    let left := m * Nat.pow 2 (e - place).toNat
    let right := n * Nat.pow 2 (f - place).toNat
    if s = t then .finite s (left + right) place
    else if right < left then .finite s (left - right) place
    else if left < right then .finite t (right - left) place
    else .finite false 0 place
  | .infinite s, .finite .. => .infinite s
  | .finite .., .infinite t => .infinite t
  | .infinite s, .infinite t => if s = t then .infinite s else .nan false
  | .nan _, _ => .nan false
  | _, .nan _ => .nan false

/-- The quotient, cut below `places` binary places of the mantissas'
quotient, its last bit telling whether anything was cut off. -/
def div (places : Nat) : BinaryNumber → BinaryNumber → BinaryNumber
  | .finite s m e, .finite t n f =>
    if n = 0 then if m = 0 then .nan false else .infinite (s != t)
    else
      let scaled := m * Nat.pow 2 places
      .finite (s != t) (2 * (scaled / n) + if scaled % n = 0 then 0 else 1) (e - f - places - 1)
  | .infinite s, .finite t _ _ => .infinite (s != t)
  | .finite s _ _, .infinite t => .finite (s != t) 0 0
  | .infinite _, .infinite _ => .nan false
  | .nan _, _ => .nan false
  | _, .nan _ => .nan false

end BinaryNumber

namespace FloatFormat

variable (format : FloatFormat)

/-- The pattern nearest to the product of two. -/
def mul (left right : BitVec format.bits) : BitVec format.bits :=
  format.encode ((format.decode left).mul (format.decode right))

/-- The pattern nearest to the sum of two. -/
def add (left right : BitVec format.bits) : BitVec format.bits :=
  format.encode ((format.decode left).add (format.decode right))

/-- The places to which a quotient of mantissas is cut: their quotient has
more bits there than a mantissa of the format, and two to spare. -/
def quotientPlaces : Nat := 2 * format.fractionBits + 4

/-- The pattern nearest to the quotient of two. -/
def div (left right : BitVec format.bits) : BitVec format.bits :=
  format.encode ((format.decode left).div format.quotientPlaces (format.decode right))

/-- The pattern nearest to a power of two. -/
def powerOfTwo (exponent : Int) : BitVec format.bits := format.round false 1 exponent

end FloatFormat

end TypedAttr
