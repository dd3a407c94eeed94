import TypedAttr.Proofs.Text.Slot
/-!
# Text slots that are filled again

Only the first bytes of a text get into its slot (`room`), and what is
trimmed from the slot is what is trimmed from those. So a slot that was
filled with what was trimmed from it, or with all of its bytes, is left as it
is when that is done again (`fill_fill`, `fill_trim_fill_trim`).
-/

namespace TypedAttr

namespace Padding

variable {padding : Padding} {width : Nat} {slot : Bytes}

/-- The count of bytes that a slot has for its text. -/
def room : Padding → (width : Nat) → Nat
  | .terminated, width => width - 1
  | .zeros, width => width
  | .spaces, width => width

/-- A text may as well be cut to its room before it is written. -/
theorem fill_take_room (padding : Padding) (width : Nat) (bytes : Bytes) :
    padding.fill (bytes.take (padding.room width)) width = padding.fill bytes width := by
  have hfit (filler : UInt8) : fit filler (bytes.take width) width = fit filler bytes width := by
    have hfillers : width - min width bytes.length = width - bytes.length := by omega
    rw [fit, fit, List.take_take, Nat.min_self, List.length_take, hfillers]
  cases padding with
  | terminated => rw [fill, fill, room, List.take_take, Nat.min_self]
  | zeros => exact hfit 0
  | spaces => exact hfit 32

/-! ## What is trimmed from a slot -/

theorem takeWhile_append_zeros (bytes : Bytes) (n : Nat) :
    (bytes ++ List.replicate n 0).takeWhile (· != 0) = bytes.takeWhile (· != 0) := by
  have hnone : (List.replicate n (0 : UInt8)).takeWhile (· != 0) = [] := by
    cases n <;> simp [List.replicate_succ]
  rw [List.takeWhile_append]
  split
  · next hlength =>
    rw [hnone, List.append_nil]
    exact ((List.takeWhile_prefix _).eq_of_length hlength).symm
  · rfl

theorem trim_append_spaces (bytes : Bytes) (n : Nat) :
    trim .spaces (bytes ++ List.replicate n 32) = trim .spaces bytes := by
  have hblank : ∀ b ∈ List.replicate n (32 : UInt8), isBlank b = true := by
    intro b hb
    rw [List.eq_of_mem_replicate hb]
    rfl
  rw [trim, List.reverse_append, List.reverse_replicate, List.dropWhile_append_of_pos hblank, trim]

/-- **What fills up a slot is trimmed again**, and what else is trimmed was
within the text. -/
theorem trim_fill_eq (padding : Padding) (width : Nat) (bytes : Bytes) :
    padding.trim (padding.fill bytes width) = padding.trim (bytes.take (padding.room width)) := by
  cases padding with
  | terminated =>
    have hwidth : min width (width - 1) = width - 1 := by omega
    rw [fill, fit, trim, trim, takeWhile_append_zeros, List.take_take, hwidth]
    rfl
  | zeros => exact takeWhile_append_zeros _ _
  | spaces => exact trim_append_spaces _ _

theorem trim_isPrefix (padding : Padding) (slot : Bytes) : padding.trim slot <+: slot := by
  cases padding with
  | terminated => exact List.takeWhile_prefix _
  | zeros => exact List.takeWhile_prefix _
  | spaces =>
    rw [trim, ← List.reverse_suffix, List.reverse_reverse]
    exact List.dropWhile_suffix _

/-- Text ends before the first zero byte, or in a byte that is not blank. -/
theorem not_mem_takeWhile (slot : Bytes) : 0 ∉ slot.takeWhile (· != 0) := by
  intro hzero
  have hall : (slot.takeWhile (· != 0)).all (· != 0) = true := List.all_takeWhile
  exact absurd (List.all_eq_true.1 hall 0 hzero) (by decide)

/-- What follows a zero byte is not seen. -/
theorem takeWhile_append_of_mem {bytes : Bytes} (hzero : 0 ∈ bytes) (rest : Bytes) :
    (bytes ++ rest).takeWhile (· != 0) = bytes.takeWhile (· != 0) := by
  have hends : (bytes.takeWhile (· != 0)).length ≠ bytes.length := by
    intro hall
    have hself := (List.takeWhile_prefix _).eq_of_length hall
    exact not_mem_takeWhile bytes (hself.symm ▸ hzero)
  rw [List.takeWhile_append, if_neg hends]

theorem isBlank_getLast?_trim (slot : Bytes) :
    ∀ b ∈ (trim .spaces slot).getLast?, isBlank b = false := by
  intro b hb
  have hhead := List.head?_dropWhile_not isBlank slot.reverse
  rw [trim, List.getLast?_reverse] at hb
  rw [hb] at hhead
  exact hhead

/-- **What is trimmed from a slot has a place in one**, once it is cut to its
room. -/
theorem holds_trim (padding : Padding) (hlength : slot.length = width) :
    padding.Holds width ((padding.trim slot).take (padding.room width)) := by
  have hnonzero (bytes : Bytes) (n : Nat) : 0 ∉ (bytes.takeWhile (· != 0)).take n :=
    fun hzero => not_mem_takeWhile bytes (List.mem_of_mem_take hzero)
  cases padding with
  | terminated => exact ⟨List.length_take_le _ _, hnonzero slot _⟩
  | zeros => exact ⟨List.length_take_le _ _, hnonzero slot _⟩
  | spaces =>
    have hle : (trim .spaces slot).length ≤ width := hlength ▸ length_trim_le .spaces slot
    rw [room, List.take_of_length_le hle]
    exact ⟨hle, isBlank_getLast?_trim slot⟩

/-- Of a slot that is cut to its room as much is text as before, or all of
it is. -/
theorem trim_take_room (padding : Padding) (hlength : slot.length = width) :
    padding.trim (slot.take (padding.room width)) = padding.trim slot ∨
      padding.trim (slot.take (padding.room width)) = slot.take (padding.room width) := by
  cases padding with
  | terminated =>
    by_cases hzero : 0 ∈ slot.take (width - 1)
    · left
      have hrest := takeWhile_append_of_mem hzero (slot.drop (width - 1))
      rw [List.take_append_drop] at hrest
      exact hrest.symm
    · right
      simpa [trim, room] using takeWhile_fill hzero 0
  | zeros =>
    left
    rw [room, List.take_of_length_le (Nat.le_of_eq hlength)]
  | spaces =>
    left
    rw [room, List.take_of_length_le (Nat.le_of_eq hlength)]

/-! ## Slots that stay as they are -/

/-- **A filled slot is filled with all of its bytes** and stays as it is. -/
theorem fill_fill (padding : Padding) (width : Nat) (bytes : Bytes) :
    padding.fill (padding.fill bytes width) width = padding.fill bytes width := by
  rw [fill_of_length_eq padding (length_fill padding bytes width)]
  refine finish_of_getLast ?_
  rintro rfl b hb
  -- a terminated slot has a byte more than its room, so a zero stands last
  have hroom : (bytes.take (width - 1)).length ≤ width - 1 := List.length_take_le _ _
  rw [fill, fit] at hb
  cases hfillers : width - (bytes.take (width - 1)).length with
  | zero =>
    obtain rfl : width = 0 := by omega
    simp at hb
  | succ fillers =>
    rw [hfillers, List.replicate_succ', ← List.append_assoc, List.getLast?_concat] at hb
    exact (Option.some.inj hb).symm

/-- **It is filled with what is trimmed from it**, if that was how it was
filled before, and stays as it is. -/
theorem fill_trim_fill_trim (padding : Padding) (hlength : slot.length = width) :
    padding.fill (padding.trim (padding.fill (padding.trim slot) width)) width =
      padding.fill (padding.trim slot) width := by
  have hheld : padding.trim (padding.fill (padding.trim slot) width) =
      (padding.trim slot).take (padding.room width) := by
    rw [← fill_take_room]
    exact trim_fill (holds_trim padding hlength)
  rw [hheld, fill_take_room]

end Padding

end TypedAttr
