import TypedAttr.Text.Utf8
/-!
# Fixed-width text

A text slot has a fixed width, and the padding says what fills it up
(`Padding.fill`) and what is taken away when it is read (`Padding.trim`).
-/

namespace TypedAttr

/-- How a text shorter than its slot is filled up. -/
inductive Padding where
  /-- The text ends at the first zero byte, and the last byte is one. -/
  | terminated
  /-- Zero bytes follow the text. -/
  | zeros
  /-- Spaces follow the text. -/
  | spaces
  deriving DecidableEq, Inhabited

namespace Padding

/-- The first `width` bytes of a source, or all of it followed by `fill`. -/
def fit (fill : UInt8) (source : Bytes) (width : Nat) : Bytes :=
  source.take width ++ List.replicate (width - source.length) fill

/-- The slot of `width` bytes for a text. Only a terminated slot gives up
its last byte. -/
def fill : Padding → (text : Bytes) → (width : Nat) → Bytes
  | .terminated, text, width => fit 0 (text.take (width - 1)) width
  | .zeros, text, width => fit 0 text width
  | .spaces, text, width => fit 32 text width

/-- A space or a zero byte, which space padding strips from the end. -/
def isBlank (b : UInt8) : Bool := b == 32 || b == 0

/-- The part of a slot that is text: up to the first zero byte, or, for
space padding, up to the last byte that is not blank. -/
def trim : Padding → (slot : Bytes) → Bytes
  | .terminated, slot => slot.takeWhile (· != 0)
  | .zeros, slot => slot.takeWhile (· != 0)
  | .spaces, slot => (slot.reverse.dropWhile isBlank).reverse

/-- The text in a slot, unless its bytes are no text. -/
def text? (padding : Padding) (slot : Bytes) : Option String :=
  Text.ofUtf8? (padding.trim slot)

@[simp] theorem length_fit (fill : UInt8) (source : Bytes) (width : Nat) :
    (fit fill source width).length = width := by
  simp [fit]
  omega

/-- A filled slot has its width. -/
@[simp] theorem length_fill (padding : Padding) (text : Bytes) (width : Nat) :
    (padding.fill text width).length = width := by
  cases padding <;> simp [fill]

end Padding

end TypedAttr
