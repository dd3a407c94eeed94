import TypedAttr.Bytes.Word
/-!
# Hexadecimal text

A byte string is shown as two lowercase digits per byte, the high half
first. A word is shown in the order of its value, most significant byte
first. What is shown can be read again (`ofHex?_hex`).
-/

namespace TypedAttr

namespace Bytes

/-- The two digits of one byte. -/
def hexPair (b : UInt8) : List Char :=
  [Nat.digitChar (b.toNat / 16), Nat.digitChar (b.toNat % 16)]

/-- Two digits per byte, in order. -/
def hex (bytes : Bytes) : String :=
  String.ofList (bytes.flatMap hexPair)

/-- The digits of a number that fills `width` bytes. -/
def hexOfNat (width n : Nat) : String :=
  hex (ByteOrder.big.write width n)

/-- The number that a lowercase digit stands for. -/
def digitValue? (c : Char) : Option Nat :=
  if c.isDigit then some (c.toNat - '0'.toNat)
  else if 'a' ≤ c ∧ c ≤ 'f' then some (c.toNat - 'a'.toNat + 10)
  else none

/-- The bytes of which each two characters are the digits. -/
def ofHexDigits? : List Char → Option Bytes
  | [] => some []
  | high :: low :: rest => do
    return UInt8.ofNat (16 * (← digitValue? high) + (← digitValue? low)) :: (← ofHexDigits? rest)
  | [_] => none

/-- The bytes that a text shows. -/
def ofHex? (text : String) : Option Bytes := ofHexDigits? text.toList

theorem digitValue?_digitChar : ∀ n < 16, digitValue? (Nat.digitChar n) = some n := by
  decide

/-- Bytes come back from their digits. -/
theorem ofHexDigits?_flatMap (bytes : Bytes) :
    ofHexDigits? (bytes.flatMap hexPair) = some bytes := by
  induction bytes with
  | nil => rfl
  | cons b rest ih =>
    have hb : b.toNat < 256 := b.toNat_lt
    have high := digitValue?_digitChar (b.toNat / 16) (by omega)
    have low := digitValue?_digitChar (b.toNat % 16) (by omega)
    have whole : UInt8.ofNat (16 * (b.toNat / 16) + b.toNat % 16) = b := by
      rw [Nat.div_add_mod, UInt8.ofNat_toNat]
    simp [hexPair, ofHexDigits?, high, low, ih, -UInt8.ofNat_add, whole]

@[simp] theorem ofHex?_hex (bytes : Bytes) : ofHex? bytes.hex = some bytes := by
  simp [ofHex?, hex, ofHexDigits?_flatMap]

end Bytes

end TypedAttr
