import TypedAttr.Bytes.Word
/-!
# Integer kinds

The integers that machines hold: words of one, two, four or eight bytes,
read with or without a sign. `toInt` is the number that a word stands for,
and `ofInt?` is the word of a number that is in range.
-/

namespace TypedAttr

/-- The byte counts that an integer word can have. -/
inductive WordSize where
  | one
  | two
  | four
  | eight
  deriving DecidableEq, Inhabited

namespace WordSize

/-- The count of bytes. -/
def bytes : WordSize → Nat
  | .one => 1
  | .two => 2
  | .four => 4
  | .eight => 8

/-- The word size of that many bytes, if there is one. -/
def ofBytes? : Nat → Option WordSize
  | 1 => some .one
  | 2 => some .two
  | 4 => some .four
  | 8 => some .eight
  | _ => none

@[simp] theorem ofBytes?_bytes (size : WordSize) : ofBytes? size.bytes = some size := by
  cases size <;> rfl

/-- A word size is found only for its own count of bytes. -/
theorem bytes_of_ofBytes? {n : Nat} {size : WordSize} (h : ofBytes? n = some size) :
    size.bytes = n := by
  unfold ofBytes? at h
  split at h <;> cases h <;> rfl

end WordSize

/-- A kind of machine integer. -/
structure IntKind where
  size : WordSize
  signed : Bool
  deriving DecidableEq, Inhabited

namespace IntKind

/-- The width in bits. -/
abbrev bits (kind : IntKind) : Nat := 8 * kind.size.bytes

/-- The name of the kind, such as `int16` or `uint8`. -/
def name (kind : IntKind) : String :=
  (if kind.signed then "int" else "uint") ++ toString kind.bits

/-- All kinds, the narrowest first. -/
def all : List IntKind :=
  [.one, .two, .four, .eight].flatMap fun size => [⟨size, true⟩, ⟨size, false⟩]

/-- The kind of a name. -/
def ofName? (name : String) : Option IntKind := all.find? (·.name == name)

/-- The number that a word of this kind stands for. -/
def toInt (kind : IntKind) (word : BitVec kind.bits) : Int :=
  if kind.signed then word.toInt else word.toNat

/-- The least number of this kind. -/
def least (kind : IntKind) : Int :=
  if kind.signed then -(Nat.pow 2 (kind.bits - 1) : Nat) else 0

/-- The first number past this kind. -/
def bound (kind : IntKind) : Int :=
  Nat.pow 2 (if kind.signed then kind.bits - 1 else kind.bits)

/-- Whether a number is in the range of this kind. -/
def fits (kind : IntKind) (n : Int) : Bool :=
  kind.least ≤ n && n < kind.bound

/-- The word of a number in range. -/
def ofInt? (kind : IntKind) (n : Int) : Option (BitVec kind.bits) :=
  if kind.fits n then some (BitVec.ofInt kind.bits n) else none

end IntKind

namespace ByteOrder

/-- The word in a slot. -/
def readWord (order : ByteOrder) (width : Nat) (slot : Bytes) : BitVec (8 * width) :=
  BitVec.ofNat _ (order.read slot)

/-- The slot of a word. -/
def writeWord (order : ByteOrder) {width : Nat} (word : BitVec (8 * width)) : Bytes :=
  order.write width word.toNat

@[simp] theorem length_writeWord (order : ByteOrder) {width : Nat} (word : BitVec (8 * width)) :
    (order.writeWord word).length = width := by
  simp [writeWord]

/-- A word reads back from its slot. -/
@[simp] theorem readWord_writeWord (order : ByteOrder) {width : Nat}
    (word : BitVec (8 * width)) : order.readWord width (order.writeWord word) = word := by
  apply BitVec.eq_of_toNat_eq
  have bound : word.toNat < 256 ^ width := by
    rw [show 256 = 2 ^ 8 from rfl, ← Nat.pow_mul]
    exact word.isLt
  rw [readWord, writeWord, read_write, BitVec.toNat_ofNat, Nat.pow_eq, Nat.mod_eq_of_lt bound,
    Nat.mod_eq_of_lt word.isLt]

/-- A slot that was read as a word can be written again. -/
theorem writeWord_readWord (order : ByteOrder) {width : Nat} {slot : Bytes}
    (h : slot.length = width) : order.writeWord (order.readWord width slot) = slot := by
  subst h
  have bound : order.read slot < 2 ^ (8 * slot.length) := by
    rw [Nat.pow_mul]
    exact order.read_lt slot
  rw [readWord, writeWord, BitVec.toNat_ofNat, Nat.mod_eq_of_lt bound, write_read]

end ByteOrder

end TypedAttr
