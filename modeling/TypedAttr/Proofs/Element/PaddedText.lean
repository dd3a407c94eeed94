import TypedAttr.Proofs.Element.Slots
import TypedAttr.Proofs.Text.Cut
import Mathlib.Data.List.DropRight
/-!
# Texts between zeros

A slot that is filled up with zeros is read up to its first zero byte, like
one that a zero byte ends, and not up to the zeros at its end. So a text with
a zero character in it is cut there, and a slot with a zero byte before some
other byte is written anew without what follows. For all texts and slots
without such a zero, what was written is read and what was read is written
again (`decode_encode_zeroPadded`).
-/

namespace TypedAttr

namespace Text

/-- All of a text stands before its first zero character just if it has
none. -/
theorem upToZero_eq_self_iff (text : String) :
    upToZero text = text ↔ '\x00' ∉ text.toList := by
  rw [← String.toList_inj, upToZero, String.toList_ofList, List.takeWhile_eq_self_iff]
  constructor
  · intro h hzero
    exact absurd (h _ hzero) (by decide)
  · intro h c hc
    rw [bne_iff_ne]
    rintro rfl
    exact h hc

end Text

namespace Padding

/-- Zeros at the end are dropped whatever stands before them. -/
theorem rdropWhile_append_zeros (bytes : Bytes) (n : Nat) :
    (bytes ++ Bytes.zeros n).rdropWhile (· == 0) = bytes.rdropWhile (· == 0) := by
  have hzero : ∀ b ∈ Bytes.zeros n, (b == 0) = true := by
    intro b hb
    rw [List.eq_of_mem_replicate hb]
    rfl
  rw [List.rdropWhile, List.reverse_append, List.dropWhile_append_of_pos, List.rdropWhile]
  exact fun b hb => hzero b (List.mem_reverse.1 hb)

/-- What is left without the zeros at the end, and those zeros. -/
theorem exists_zeros (slot : Bytes) : ∃ n, slot = slot.rdropWhile (· == 0) ++ Bytes.zeros n := by
  have hzeros : slot.rtakeWhile (· == 0) = Bytes.zeros (slot.rtakeWhile (· == 0)).length :=
    List.eq_replicate_of_mem fun b hb => by simpa using List.mem_rtakeWhile_imp hb
  refine ⟨(slot.rtakeWhile (· == 0)).length, ?_⟩
  rw [← hzeros, List.rdropWhile_append_rtakeWhile]

/-- **Zeros behind the bytes before the first zero make up the slot** just if
the slot has no zero but at its end. -/
theorem takeWhile_append_zeros_eq_self_iff (slot : Bytes) :
    slot.takeWhile (· != 0) ++ Bytes.zeros (slot.length - (slot.takeWhile (· != 0)).length) = slot ↔
      0 ∉ slot.rdropWhile (· == 0) := by
  constructor
  · intro h hzero
    rw [← h, rdropWhile_append_zeros] at hzero
    exact not_mem_takeWhile slot ((List.rdropWhile_prefix _ _).subset hzero)
  · intro h
    obtain ⟨n, hslot⟩ := exists_zeros slot
    have htext : slot.takeWhile (· != 0) = slot.rdropWhile (· == 0) := by
      rw [hslot, rdropWhile_append_zeros, List.rdropWhile_idempotent]
      exact takeWhile_fill h n
    have hlength := congrArg List.length hslot
    rw [List.length_append, Bytes.length_zeros] at hlength
    have hn : slot.length - (slot.rdropWhile (· == 0)).length = n := by omega
    rw [htext, hn, ← hslot]

end Padding

namespace Datatype

section ZeroPadded

variable {size : Nat} {traits : Traits} {options : ElementOptions} {path : String}

/-- Text is encoded as its bytes and zeros behind them, if it fits. -/
theorem encode_zeroPadded (hpadding : traits.padding = .zeros) {text : String}
    (hlength : (Text.utf8 text).length ≤ size) :
    (fixedText size traits).encode options (.text text) =
      .ok (Text.utf8 text ++ Bytes.zeros (size - (Text.utf8 text).length)) := by
  rw [encode, encodeAt, settle?_eq_none rfl rfl rfl]
  simp only [encodeText, Bytes.length_zeros, Datatype.size, padding, Datatype.traits, hpadding,
    Padding.fill, Padding.fit, List.take_of_length_le hlength, Overlay.toExcept_untouched]
  rfl

/-- A slot is decoded as the text before its first zero byte. -/
theorem decode_zeroPadded (hpadding : traits.padding = .zeros) (hconvert : options.convertText)
    {slot : Bytes} (hlength : slot.length = size) {text : String}
    (htext : Text.utf8 text = slot.takeWhile (· != 0)) :
    (fixedText size traits).decode options slot = .text text := by
  rw [decode, decodeAt, readSlot_of_length hlength]
  simp only [decodeText, hconvert, if_true, hpadding, Padding.text?, Padding.trim, ← htext,
    Text.ofUtf8?_utf8]

end ZeroPadded

/-- **Null padding and zeros inside.** A text that fits is encoded with zeros
behind it and read up to its first zero character, so it comes back just if it
has none. A slot that is text is read up to its first zero byte and written
anew with zeros from there on, so it is left as it is just if no zero byte
stands before another byte. -/
theorem decode_encode_zeroPadded (size : Nat) (order : ByteOrder) (members : MemberSelection) :
    let type : Datatype := .fixedText size { order := order, padding := .zeros }
    let options : ElementOptions := { convertText := true, members := members }
    (∀ text : String, (Text.utf8 text).length ≤ size →
      ∃ slot, type.encode options (.text text) = .ok slot ∧
        type.decode options slot = .text (Text.upToZero text) ∧
        (type.decode options slot = .text text ↔ '\x00' ∉ text.toList)) ∧
    ∀ slot : Bytes, slot.length = size → Text.IsText slot →
      let front := slot.takeWhile (· != 0)
      type.encode options (type.decode options slot) =
        .ok (front ++ Bytes.zeros (size - front.length)) ∧
      (type.encode options (type.decode options slot) = .ok slot ↔
        0 ∉ slot.rdropWhile (· == 0)) := by
  intro type options
  refine ⟨fun text hlength => ?_, ?_⟩
  · let slot := Text.utf8 text ++ Bytes.zeros (size - (Text.utf8 text).length)
    have hslot : slot.length = size := by
      rw [List.length_append, Bytes.length_zeros]
      omega
    have hread : type.decode options slot = .text (Text.upToZero text) := by
      refine decode_zeroPadded rfl rfl hslot ?_
      rw [Text.utf8_upToZero]
      exact (Padding.takeWhile_append_zeros _ _).symm
    refine ⟨slot, encode_zeroPadded rfl hlength, hread, ?_⟩
    rw [hread, Value.text.injEq, Text.upToZero_eq_self_iff]
  · rintro slot rfl ⟨text, rfl⟩ front
    -- what stands before the first zero byte is a text itself
    have hfront : Text.utf8 (Text.upToZero text) = front := Text.utf8_upToZero text
    have hfits : (Text.utf8 (Text.upToZero text)).length ≤ (Text.utf8 text).length := by
      rw [hfront]
      exact (List.takeWhile_prefix _).length_le
    have hagain : type.encode options (type.decode options (Text.utf8 text)) =
        .ok (front ++ Bytes.zeros ((Text.utf8 text).length - front.length)) := by
      rw [decode_zeroPadded rfl rfl rfl hfront, encode_zeroPadded rfl hfits, hfront]
    refine ⟨hagain, ?_⟩
    rw [hagain, Except.ok.injEq, Padding.takeWhile_append_zeros_eq_self_iff]

/-- A zero between two letters: the text comes back without what follows the
zero, and the slot is written with a zero in place of it. -/
theorem decode_encode_zeroPadded_between :
    let type : Datatype := .fixedText 3 { order := .unspecified, padding := .zeros }
    let options : ElementOptions := { convertText := true, members := .all }
    (∃ slot, type.encode options (.text "a\x00b") = .ok slot ∧
      type.decode options slot = .text "a" ∧ type.decode options slot ≠ .text "a\x00b") ∧
    type.encode options (type.decode options [97, 0, 98]) = .ok [97, 0, 0] := by
  intro type options
  obtain ⟨htexts, hslots⟩ := decode_encode_zeroPadded 3 .unspecified .all
  obtain ⟨slot, hwritten, hread, hsame⟩ := htexts "a\x00b" (by decide +kernel)
  refine ⟨⟨slot, hwritten, hread, fun h => hsame.1 h (by decide +kernel)⟩, ?_⟩
  exact (hslots [97, 0, 98] rfl ⟨"a\x00b", by decide +kernel⟩).1

end Datatype

end TypedAttr
