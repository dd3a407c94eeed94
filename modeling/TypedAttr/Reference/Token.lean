import TypedAttr.Bytes.Hex
import TypedAttr.Bytes.Chunks
import TypedAttr.Number.Integer
/-!
# Reference tokens

A token is a few bytes that a storage backend hands out to name an object,
an attribute or a region. Only the backend can tell what they mean; all
zeros name nothing.
-/

namespace TypedAttr

/-- The address of an object, eight bytes as one number. -/
abbrev Address := BitVec (8 * 8)

/-- The bytes that name an object, an attribute or a region. -/
structure Token where
  bytes : Bytes
  deriving DecidableEq, Inhabited

namespace Token

/-- The count of bytes. -/
def size (token : Token) : Nat := token.bytes.length

/-- The token of a size that names nothing. -/
def null (size : Nat) : Token := ⟨Bytes.zeros size⟩

/-- Whether a token names nothing. -/
def isNull (token : Token) : Bool := token.bytes.all (· == 0)

/-- The token of an address, little end first. -/
def ofAddress (address : Address) : Token := ⟨ByteOrder.little.writeWord address⟩

/-- The address in a token of eight bytes. -/
def address? (token : Token) : Option Address :=
  if token.size = 8 then some (ByteOrder.little.readWord 8 token.bytes) else none

/-- The tokens of one size in packed bytes. -/
def split (size : Nat) (packed : Bytes) : List Token :=
  (wholeChunks size packed).map Token.mk

/-- The text of a token, its bytes as digits. -/
def render (token : Token) : String := s!"Token({token.bytes.hex})"

/-- An address comes back from its token. -/
theorem address?_ofAddress (address : Address) : (ofAddress address).address? = some address := by
  simp [address?, ofAddress, size]

theorem isNull_null (size : Nat) : (null size).isNull = true := by
  simp [isNull, null, Bytes.zeros]

end Token

end TypedAttr
