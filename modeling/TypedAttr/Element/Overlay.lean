import TypedAttr.Bytes.Word
import TypedAttr.Error
/-!
# Overlays

Writing an element lays bytes over a slot. It can fail on the way, and then
the bytes laid so far stay. An overlay is the slot as it is left and the
failure, if there was one; `andThen` goes on with the next slot unless there
was.
-/

namespace TypedAttr

/-- A slot after something was written to it, and why it was not all
written, if it was not. -/
structure Overlay where
  slot : Bytes
  failure : Option Error := none
  deriving DecidableEq, Inhabited

namespace Overlay

/-- A slot that is left as it was. -/
def untouched (slot : Bytes) : Overlay := { slot := slot }

/-- A slot that is left as it was because of an error. -/
def refused (slot : Bytes) (e : Error) : Overlay := { slot := slot, failure := some e }

/-- Goes on to the bytes after the slot, unless writing has failed. -/
def andThen (first : Overlay) (others : Bytes) (next : Bytes → Overlay) : Overlay :=
  match first.failure with
  | some e => { slot := first.slot ++ others, failure := some e }
  | none =>
    let second := next others
    { slot := first.slot ++ second.slot, failure := second.failure }

/-- The slot, unless writing has failed. -/
def toExcept (overlay : Overlay) : Except Error Bytes :=
  match overlay.failure with
  | some e => .error e
  | none => .ok overlay.slot

/-- Writes items into slots of `step` bytes, one after the other, until one
fails. -/
def run {α : Type} (write : α → Bytes → Overlay) (step : Nat) : List α → Bytes → Overlay
  | [], slots => untouched slots
  | item :: rest, slots =>
    (write item (slots.take step)).andThen (slots.drop step) (run write step rest)

end Overlay

end TypedAttr
