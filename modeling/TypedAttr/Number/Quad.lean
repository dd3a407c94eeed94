import TypedAttr.Number.Binary
/-!
# Sixteen-byte floats

No machine computes with these, so they are kept as patterns and only
looked at through the double format. Widening a double is exact, and
`narrow` gives it back. For the numbers between, `narrow` cuts the fraction
to the double's 52 bits, and rounds only where a double has fewer.
-/

namespace TypedAttr

namespace Quad

/-- The bits of a pattern. -/
abbrev Pattern := BitVec FloatFormat.quad.bits

/-- The quad pattern of a double's number. -/
def widen (pattern : BitVec FloatFormat.double.bits) : Pattern :=
  FloatFormat.double.convert .quad pattern

/-- The count of fraction bits that a double does not have. -/
def excessBits : Nat := FloatFormat.quad.fractionBits - FloatFormat.double.fractionBits

/-- The double that stands for a quad. A leading bit past the range of
doubles gives infinity, one below their last place gives zero, and so do the
numbers without a leading bit. -/
def narrow (pattern : Pattern) : BitVec FloatFormat.double.bits :=
  match FloatFormat.quad.decode pattern with
  | .nan _ => FloatFormat.double.quietNaN false
  | .infinite negative => FloatFormat.double.infinity negative
  | .finite negative mantissa exponent =>
    let leading := exponent + FloatFormat.quad.fractionBits
    if mantissa < Nat.pow 2 FloatFormat.quad.fractionBits then FloatFormat.double.zero negative
    else if leading > FloatFormat.double.bias then FloatFormat.double.infinity negative
    else if leading < FloatFormat.double.leastPlace then FloatFormat.double.zero negative
    else FloatFormat.double.round negative (mantissa / Nat.pow 2 excessBits) (exponent + excessBits)

/-- Whether a pattern is no number. -/
def isNaN (pattern : Pattern) : Bool :=
  match FloatFormat.quad.decode pattern with
  | .nan _ => true
  | .infinite _ => false
  | .finite .. => false

end Quad

end TypedAttr
