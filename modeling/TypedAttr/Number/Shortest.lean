import TypedAttr.Number.Quad
/-!
# Shortest decimals

The text of a float is the decimal with the fewest digits that reads back
as the same pattern, and of those the nearest to the number, a tie going
up. It is found on decimal grids, the coarsest first: the first grid with a
point in the span of reals that round to the pattern holds the answer
(`Span.shortest`).
-/

namespace TypedAttr

/-- The decimal `coefficient * 10 ^ exponent`. -/
structure Decimal where
  coefficient : Nat
  exponent : Int
  deriving DecidableEq, Inhabited

namespace Decimal

/-- The digits written out around the point, without an exponent: zeros
stand in for the places that the coefficient does not reach. -/
def positional (decimal : Decimal) : String :=
  let digits := Nat.toDigits 10 decimal.coefficient
  if 0 ≤ decimal.exponent then
    String.ofList (digits ++ List.replicate decimal.exponent.toNat '0')
  else
    let places := (-decimal.exponent).toNat
    let padded := List.replicate (places + 1 - digits.length) '0' ++ digits
    let whole := padded.length - places
    String.ofList (padded.take whole ++ '.' :: padded.drop whole)

end Decimal

/-- The reals that round to one number: from `low / scale` to `high / scale`
around `value / scale`, the ends included if `closed`. -/
structure Span where
  low : Nat
  value : Nat
  high : Nat
  scale : Nat
  closed : Bool
  deriving DecidableEq, Inhabited

namespace Span

/-- The span around `mantissa * 2 ^ exponent`, one place wide. Below a power
of two the places are half as wide, so there the span is, too. -/
def around (mantissa : Nat) (exponent : Int) (powerOfTwo : Bool) : Span :=
  let quarter := exponent - 2
  let factor := Nat.pow 2 quarter.toNat
  { low := (4 * mantissa - if powerOfTwo then 1 else 2) * factor
    value := 4 * mantissa * factor
    high := (4 * mantissa + 2) * factor
    scale := Nat.pow 2 (-quarter).toNat
    closed := mantissa % 2 = 0 }

/-- Whether a point that is not past the value is in the span. -/
def reachesDown (span : Span) (point shift : Nat) : Bool :=
  if span.closed then span.low * shift ≤ point else span.low * shift < point

/-- Whether a point past the value is in the span. -/
def reachesUp (span : Span) (point shift : Nat) : Bool :=
  if span.closed then point ≤ span.high * shift else point < span.high * shift

/-- The point in the span on the grid of multiples of `10 ^ exponent`: the
nearer of the value's two neighbours that are in it, and the upper one on a
tie. -/
def onGrid? (span : Span) (exponent : Int) : Option Decimal :=
  let shift := Nat.pow 10 (-exponent).toNat
  let step := span.scale * Nat.pow 10 exponent.toNat
  let below := span.value * shift / step
  let rest := span.value * shift % step
  let down := span.reachesDown (below * step) shift
  let up := span.reachesUp ((below + 1) * step) shift
  if down && !(up && step ≤ 2 * rest) then some ⟨below, exponent⟩
  else if up then some ⟨below + 1, exponent⟩
  else none

/-- The grids that are tried: from one coarser than the span down to one
that holds the value itself. -/
def grids (span : Span) : List Int :=
  let coarsest := (Nat.toDigits 10 (span.high / span.scale)).length
  (List.range (coarsest + span.scale.log2 + 1)).map fun (i : Nat) => (coarsest : Int) - i

/-- The decimal in the span with the fewest digits. -/
def shortest (span : Span) : Decimal :=
  (span.grids.findSome? span.onGrid?).getD ⟨0, 0⟩

end Span

namespace FloatFormat

/-- The decimal text of a pattern in its own format. -/
def decimalText (format : FloatFormat) (pattern : BitVec format.bits) : String :=
  match format.decode pattern with
  | .nan _ => "NaN"
  | .infinite negative => if negative then "-inf" else "inf"
  | .finite negative mantissa exponent =>
    let powerOfTwo := format.fractionField pattern = 0 && 1 < format.exponentField pattern
    let magnitude :=
      if mantissa = 0 then "0"
      else (Span.around mantissa exponent powerOfTwo).shortest.positional
    if negative then "-" ++ magnitude else magnitude

/-- The text of a pattern. A half is written as the single of the same
number, and a quad as the double that stands for it. -/
def text : (format : FloatFormat) → BitVec format.bits → String
  | .half, pattern => FloatFormat.single.decimalText (FloatFormat.half.convert .single pattern)
  | .single, pattern => FloatFormat.single.decimalText pattern
  | .double, pattern => FloatFormat.double.decimalText pattern
  | .quad, pattern => FloatFormat.double.decimalText (Quad.narrow pattern)

end FloatFormat

end TypedAttr
