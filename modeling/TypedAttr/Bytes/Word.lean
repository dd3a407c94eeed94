/-!
# Words in byte strings

A number occupies a fixed count of bytes, least significant first
(`Bytes.ofNat`, `Bytes.toNat`), and a byte order says whether the slot
holds them so or reversed (`ByteOrder.write`, `ByteOrder.read`). The two
directions undo each other: `read_write` up to the width, `write_read`
exactly.
-/

namespace TypedAttr

/-- A string of bytes. -/
abbrev Bytes := List UInt8

namespace Bytes

/-- The lowest `width` bytes of a number, least significant first. -/
def ofNat : (width : Nat) → (n : Nat) → Bytes
  | 0, _ => []
  | width + 1, n => UInt8.ofNat n :: ofNat width (n / 256)

/-- The number whose bytes are given, least significant first. -/
def toNat : Bytes → Nat
  | [] => 0
  | b :: rest => b.toNat + 256 * toNat rest

/-- `width` zero bytes. -/
def zeros (width : Nat) : Bytes := List.replicate width 0

@[simp] theorem length_zeros (width : Nat) : (zeros width).length = width := by
  simp [zeros]

@[simp] theorem length_ofNat (width n : Nat) : (ofNat width n).length = width := by
  induction width generalizing n with
  | zero => rfl
  | succ width ih => simp [ofNat, ih]

/-- Writing keeps the number modulo what the width can hold. -/
theorem toNat_ofNat (width n : Nat) : toNat (ofNat width n) = n % Nat.pow 256 width := by
  change _ = n % 256 ^ width
  induction width generalizing n with
  | zero => simp [ofNat, toNat, Nat.mod_one]
  | succ width ih =>
    have low : (UInt8.ofNat n).toNat = n % 256 := by simp
    rw [ofNat, toNat, ih, low, Nat.pow_succ', Nat.mod_mul]

/-- A byte string is below the power of 256 that its length names. -/
theorem toNat_lt (bytes : Bytes) : toNat bytes < Nat.pow 256 bytes.length := by
  change _ < 256 ^ bytes.length
  induction bytes with
  | nil => simp [toNat]
  | cons b rest ih =>
    have hb : b.toNat < 256 := b.toNat_lt
    rw [toNat, List.length_cons, Nat.pow_succ]
    omega

/-- Reading loses nothing: the bytes can be written again. -/
theorem ofNat_toNat (bytes : Bytes) : ofNat bytes.length (toNat bytes) = bytes := by
  induction bytes with
  | nil => rfl
  | cons b rest ih =>
    have hb : b.toNat < 256 := b.toNat_lt
    have head : UInt8.ofNat (b.toNat + 256 * toNat rest) = b := by
      apply UInt8.toNat_inj.1
      simp
    have tail : (b.toNat + 256 * toNat rest) / 256 = toNat rest := by omega
    rw [List.length_cons, toNat, ofNat, head, tail, ih]

end Bytes

/-- The order of a number's bytes in its slot. Types without numbers leave
it unspecified. -/
inductive ByteOrder where
  | little
  | big
  | unspecified
  deriving DecidableEq, Inhabited

namespace ByteOrder

/-- Between a slot and the same bytes with the least significant first.
An unspecified order counts as little. -/
def arrange : ByteOrder → Bytes → Bytes
  | .big, word => word.reverse
  | .little, word => word
  | .unspecified, word => word

/-- The number that a slot holds. -/
def read (order : ByteOrder) (slot : Bytes) : Nat :=
  Bytes.toNat (order.arrange slot)

/-- The slot of `width` bytes that holds a number. -/
def write (order : ByteOrder) (width n : Nat) : Bytes :=
  order.arrange (Bytes.ofNat width n)

@[simp] theorem length_arrange (order : ByteOrder) (word : Bytes) :
    (order.arrange word).length = word.length := by
  cases order <;> simp [arrange]

@[simp] theorem arrange_arrange (order : ByteOrder) (word : Bytes) :
    order.arrange (order.arrange word) = word := by
  cases order <;> simp [arrange]

@[simp] theorem length_write (order : ByteOrder) (width n : Nat) :
    (order.write width n).length = width := by
  simp [write]

/-- A number that fits its slot reads back. -/
theorem read_write (order : ByteOrder) (width n : Nat) :
    order.read (order.write width n) = n % Nat.pow 256 width := by
  simp [read, write, Bytes.toNat_ofNat]

/-- A slot that was read can be written again. -/
theorem write_read (order : ByteOrder) (slot : Bytes) :
    order.write slot.length (order.read slot) = slot := by
  have h := Bytes.ofNat_toNat (order.arrange slot)
  rw [length_arrange] at h
  rw [write, read, h, arrange_arrange]

/-- What a slot holds is below the bound of its width. -/
theorem read_lt (order : ByteOrder) (slot : Bytes) :
    order.read slot < Nat.pow 256 slot.length := by
  simpa [read] using Bytes.toNat_lt (order.arrange slot)

end ByteOrder

end TypedAttr
