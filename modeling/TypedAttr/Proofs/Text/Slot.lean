import TypedAttr.Text.Padding
/-!
# What a text slot keeps

Filling up a slot and trimming it again gives back every text that the
padding can hold (`trim_fill`). The other way round, a slot that is filled
with what was trimmed from it differs from what it was only after the text:
`fill_eq_finish` says how a filled slot looks, byte for byte.
-/

namespace TypedAttr

namespace Padding

/-- The byte that follows a text shorter than its slot. -/
def filler : Padding → UInt8
  | .terminated => 0
  | .zeros => 0
  | .spaces => 32

/-- A terminated slot with its last byte made a zero; any other slot as it
is. -/
def finish : Padding → (slot : Bytes) → Bytes
  | .terminated, slot => slot.dropLast ++ Bytes.zeros (min 1 slot.length)
  | .zeros, slot => slot
  | .spaces, slot => slot

/-- The bytes that can be told apart from what fills up their slot. -/
def Holds (padding : Padding) (width : Nat) (text : Bytes) : Prop :=
  match padding with
  | .terminated => text.length ≤ width - 1 ∧ 0 ∉ text
  | .zeros => text.length ≤ width ∧ 0 ∉ text
  | .spaces => text.length ≤ width ∧ ∀ b ∈ text.getLast?, isBlank b = false

/-- What is trimmed is not longer than its slot. -/
theorem length_trim_le (padding : Padding) (slot : Bytes) :
    (padding.trim slot).length ≤ slot.length := by
  have hprefix : (slot.takeWhile (· != 0)).length ≤ slot.length :=
    (List.takeWhile_prefix _).length_le
  cases padding with
  | terminated => exact hprefix
  | zeros => exact hprefix
  | spaces =>
    have := (List.dropWhile_suffix (l := slot.reverse) isBlank).length_le
    simpa [trim] using this

/-- **How a filled slot looks**: the text, cut to the width, then fillers,
and for a terminated slot a zero at the end whatever stood there. -/
theorem fill_eq_finish (padding : Padding) (text : Bytes) (width : Nat) :
    padding.fill text width =
      padding.finish (text.take width ++ List.replicate (width - text.length) padding.filler) := by
  cases padding with
  | zeros => rfl
  | spaces => rfl
  | terminated =>
    cases width with
    | zero => simp [fill, fit, finish, Bytes.zeros]
    | succ w =>
      have hlength : (text.take (w + 1) ++ List.replicate (w + 1 - text.length) (0 : UInt8)).length
          = w + 1 := by
        simp only [List.length_append, List.length_take, List.length_replicate]
        omega
      simp only [fill, fit, finish, filler, hlength, Nat.add_sub_cancel]
      rcases Nat.lt_or_ge w text.length with hlong | hshort
      · -- the text fills the slot, and its last byte gives way
        have hnone : w + 1 - text.length = 0 := by omega
        have hone : w + 1 - (text.take w).length = 1 := by
          rw [List.length_take]
          omega
        have hinner : min (min (w + 1) text.length - 1) (w + 1) = w := by omega
        rw [hnone, hone, List.replicate_zero, List.append_nil, List.dropLast_eq_take,
          List.length_take, List.take_take, List.take_take, hinner]
        simp [Bytes.zeros]
      · -- a filler stands last already
        have hsplit : w + 1 - text.length = (w - text.length) + 1 := by omega
        rw [List.take_of_length_le hshort, List.take_of_length_le (by omega : text.length ≤ w + 1),
          hsplit, List.replicate_succ', ← List.append_assoc, List.dropLast_concat]
        simp [Bytes.zeros]

/-- A slot that is filled with as many bytes as it has holds them, and is finished as any other. -/
theorem fill_of_length_eq (padding : Padding) {raw : Bytes} {width : Nat}
    (h : raw.length = width) : padding.fill raw width = padding.finish raw := by
  rw [fill_eq_finish, List.take_of_length_le (Nat.le_of_eq h), h, Nat.sub_self,
    List.replicate_zero, List.append_nil]

/-- Finishing changes nothing where the last byte is a zero already. -/
theorem finish_of_getLast {padding : Padding} {slot : Bytes}
    (h : padding = .terminated → ∀ b ∈ slot.getLast?, b = 0) : padding.finish slot = slot := by
  cases padding with
  | zeros => rfl
  | spaces => rfl
  | terminated =>
    rcases List.eq_nil_or_concat slot with rfl | ⟨front, last, rfl⟩
    · rfl
    · have hlast : last = 0 := h rfl last (by simp)
      simp [finish, Bytes.zeros, hlast]

/-- Bytes before the first zero are all that null padding keeps. -/
theorem takeWhile_fill {text : Bytes} (h : 0 ∉ text) (n : Nat) :
    (text ++ List.replicate n 0).takeWhile (· != 0) = text := by
  have hall : ∀ b ∈ text, (b != 0) = true := by
    intro b hb
    simp only [bne_iff_ne]
    rintro rfl
    exact h hb
  rw [List.takeWhile_append_of_pos hall]
  cases n <;> simp [List.replicate_succ]

/-- Blanks at the end are all that space padding takes away. -/
theorem trim_spaces_append {text : Bytes} (h : ∀ b ∈ text.getLast?, isBlank b = false) (n : Nat) :
    trim .spaces (text ++ List.replicate n 32) = text := by
  have hblank : ∀ b ∈ List.replicate n (32 : UInt8), isBlank b = true := by
    intro b hb
    rw [List.eq_of_mem_replicate hb]
    rfl
  rw [trim, List.reverse_append, List.reverse_replicate, List.dropWhile_append_of_pos hblank]
  cases hrev : text.reverse with
  | nil => simpa using hrev
  | cons b rest =>
    have hb : isBlank b = false := h b (by simp [List.getLast?_eq_head?_reverse, hrev])
    rw [List.dropWhile_cons_of_neg (by simp [hb]), ← hrev, List.reverse_reverse]

/-- **A text that a slot holds comes back from it.** -/
theorem trim_fill {padding : Padding} {text : Bytes} {width : Nat}
    (h : padding.Holds width text) : padding.trim (padding.fill text width) = text := by
  cases padding with
  | terminated =>
    obtain ⟨hlength, hzero⟩ := h
    rw [fill, List.take_of_length_le hlength, fit, List.take_of_length_le (by omega), trim]
    exact takeWhile_fill hzero _
  | zeros =>
    obtain ⟨hlength, hzero⟩ := h
    rw [fill, fit, List.take_of_length_le hlength, trim]
    exact takeWhile_fill hzero _
  | spaces =>
    obtain ⟨hlength, hlast⟩ := h
    rw [fill, fit, List.take_of_length_le hlength]
    exact trim_spaces_append hlast _

end Padding

end TypedAttr
