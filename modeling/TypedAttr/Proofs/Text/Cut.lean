import TypedAttr.Proofs.Text.Refill
/-!
# Texts that are cut to their slot

A text that is too long for its slot is cut by bytes, and a character may
take several of them. What is left is text if the cut falls between
characters, and it then is a front of the text that was written
(`isPrefix_of_text?_fill`). A cut within a character leaves bytes that are no
text, unless a zero byte before the cut ends the text anyway
(`isSome_text?_fill`).
-/

namespace TypedAttr

namespace Text

/-! ## Bytes of characters -/

/-- The bytes of a text are those of its characters. -/
theorem utf8_eq_flatMap (text : String) :
    utf8 text = text.toList.flatMap String.utf8EncodeChar := by
  rw [utf8, ← String.utf8Encode_toList]
  simp [List.utf8Encode]

theorem utf8_ofList (chars : List Char) :
    utf8 (String.ofList chars) = chars.flatMap String.utf8EncodeChar := by
  rw [utf8_eq_flatMap, String.toList_ofList]

theorem utf8_append (front rest : String) : utf8 (front ++ rest) = utf8 front ++ utf8 rest := by
  rw [utf8_eq_flatMap, String.toList_append, List.flatMap_append, ← utf8_eq_flatMap,
    ← utf8_eq_flatMap]

/-- A character of more than seven bits has no byte of seven. -/
theorem high_of_mem_encodeChar {c : Char} {b : UInt8} (hc : 127 < c.val.toNat)
    (hmem : b ∈ String.utf8EncodeChar c) : 128 ≤ b.toNat := by
  -- a leading or a following byte: its lower bits below a mark of the highest
  have hmarked (n k mark : Nat) (hk : 0 < k) (hmark : 128 ≤ mark) (hsum : k + mark ≤ 256) :
      128 ≤ (UInt8.ofNat (n % k + mark)).toNat := by
    have := Nat.mod_lt n hk
    rw [UInt8.toNat_ofNat', Nat.mod_eq_of_lt (by omega)]
    omega
  simp only [String.utf8EncodeChar, if_neg (Nat.not_le.2 hc)] at hmem
  split at hmem
  · simp only [List.mem_cons, List.not_mem_nil, or_false] at hmem
    rcases hmem with rfl | rfl <;> exact hmarked _ _ _ (by decide) (by decide) (by decide)
  split at hmem
  · simp only [List.mem_cons, List.not_mem_nil, or_false] at hmem
    rcases hmem with rfl | rfl | rfl <;> exact hmarked _ _ _ (by decide) (by decide) (by decide)
  · simp only [List.mem_cons, List.not_mem_nil, or_false] at hmem
    rcases hmem with rfl | rfl | rfl | rfl <;> exact hmarked _ _ _ (by decide) (by decide) (by decide)

/-- **A byte of seven bits is a character of its own**, and no part of
another. -/
theorem encodeChar_of_mem {c : Char} {b : UInt8} (hmem : b ∈ String.utf8EncodeChar c)
    (hb : b.toNat < 128) : String.utf8EncodeChar c = [b] := by
  have hc : c.val.toNat ≤ 127 := by
    rw [← Nat.not_lt]
    intro hc
    have := high_of_mem_encodeChar hc hmem
    omega
  have hone : String.utf8EncodeChar c = [UInt8.ofNat c.val.toNat] := if_pos hc
  rw [hone, List.mem_singleton] at hmem
  rw [hone, hmem]

theorem encodeChar_ofUInt8 {b : UInt8} (hb : b.toNat < 128) :
    String.utf8EncodeChar (Char.ofUInt8 b) = [b] := by
  have hvalue : (Char.ofUInt8 b).val.toNat = b.toNat := UInt8.toNat_toUInt32 b
  refine (if_pos (by omega)).trans ?_
  rw [hvalue, UInt8.ofNat_toNat]

theorem utf8_inj {text other : String} (h : utf8 text = utf8 other) : text = other := by
  have hread := congrArg ofUtf8? h
  rw [ofUtf8?_utf8, ofUtf8?_utf8] at hread
  exact Option.some.inj hread

/-- So it is the byte of one character only. -/
theorem eq_ofUInt8_of_mem {c : Char} {b : UInt8} (hmem : b ∈ String.utf8EncodeChar c)
    (hb : b.toNat < 128) : c = Char.ofUInt8 b := by
  have hbytes : utf8 (String.ofList [c]) = utf8 (String.ofList [Char.ofUInt8 b]) := by
    rw [utf8_ofList, utf8_ofList, List.flatMap_singleton, List.flatMap_singleton,
      encodeChar_of_mem hmem hb, encodeChar_ofUInt8 hb]
  exact List.singleton_inj.1 (String.ofList_injective (utf8_inj hbytes))

/-- **Characters whose bytes end in one of seven bits** end in its
character. -/
theorem exists_snoc {text : String} {bytes : Bytes} {b : UInt8} (h : utf8 text = bytes ++ [b])
    (hb : b.toNat < 128) :
    ∃ front, text.toList = front ++ [Char.ofUInt8 b] ∧ utf8 (String.ofList front) = bytes := by
  rw [utf8_eq_flatMap] at h
  rcases List.eq_nil_or_concat text.toList with hnil | ⟨front, last, hlast⟩
  · simp [hnil] at h
  rw [List.concat_eq_append] at hlast
  rw [hlast, List.flatMap_append, List.flatMap_singleton] at h
  -- the last character ends in the byte, so it is all that there is of it
  have hmem : b ∈ String.utf8EncodeChar last := by
    have hsome := List.getLast?_eq_some_getLast (String.utf8EncodeChar_ne_nil (c := last))
    have hend := congrArg List.getLast? h
    rw [List.getLast?_append, List.getLast?_concat, hsome, Option.some_or] at hend
    exact List.mem_of_getLast? (hsome.trans hend)
  rw [encodeChar_of_mem hmem hb, List.append_cancel_right_eq] at h
  rw [eq_ofUInt8_of_mem hmem hb] at hlast
  exact ⟨front, hlast, (utf8_ofList front).trans h⟩

/-! ## Bytes that are text -/

/-- Whether bytes are those of a text. -/
def IsText (bytes : Bytes) : Prop := ∃ text, utf8 text = bytes

/-- They are read just if they are. -/
theorem isSome_ofUtf8?_iff (bytes : Bytes) : (ofUtf8? bytes).isSome = true ↔ IsText bytes := by
  rw [Option.isSome_iff_exists]
  constructor
  · rintro ⟨text, h⟩
    exact ⟨text, utf8_of_ofUtf8? h⟩
  · rintro ⟨text, rfl⟩
    exact ⟨text, ofUtf8?_utf8 text⟩

/-- **Text within text starts where it does character by character.** -/
theorem isPrefix_of_utf8 {front text : String} (h : utf8 front <+: utf8 text) :
    front.toList <+: text.toList := by
  obtain ⟨rest, hrest⟩ := h
  rw [utf8_eq_flatMap, utf8_eq_flatMap] at hrest
  refine List.isPrefix_of_utf8Encode_append_eq_utf8Encode rest.toByteArray ?_
  rw [List.utf8Encode, List.utf8Encode, ← hrest, List.toByteArray_append]

/-- A byte of seven bits at the end makes no difference. -/
theorem isText_snoc_iff {bytes : Bytes} {b : UInt8} (hb : b.toNat < 128) :
    IsText (bytes ++ [b]) ↔ IsText bytes := by
  constructor
  · rintro ⟨text, htext⟩
    obtain ⟨front, -, hfront⟩ := exists_snoc htext hb
    exact ⟨_, hfront⟩
  · rintro ⟨text, rfl⟩
    refine ⟨text ++ String.ofList [Char.ofUInt8 b], ?_⟩
    rw [utf8_append, utf8_ofList, List.flatMap_singleton, encodeChar_ofUInt8 hb]

/-- Nor do several. -/
theorem isText_append_iff {bytes ascii : Bytes} (h : ∀ b ∈ ascii, b.toNat < 128) :
    IsText (bytes ++ ascii) ↔ IsText bytes := by
  induction ascii generalizing bytes with
  | nil => rw [List.append_nil]
  | cons b rest ih =>
    have hsplit : bytes ++ b :: rest = (bytes ++ [b]) ++ rest := by simp
    rw [hsplit, ih fun other hother => h other (by simp [hother])]
    exact isText_snoc_iff (h b (by simp))

/-- A text up to its first zero character. -/
def upToZero (text : String) : String := String.ofList (text.toList.takeWhile (· != '\x00'))

/-- **Its bytes end before the first zero byte**, since no other character
has one. -/
theorem utf8_upToZero (text : String) :
    utf8 (upToZero text) = (utf8 text).takeWhile (· != 0) := by
  rw [upToZero, utf8_ofList, utf8_eq_flatMap]
  induction text.toList with
  | nil => rfl
  | cons c rest ih =>
    by_cases hc : c = '\x00'
    · subst hc
      rfl
    · have hpos : ∀ b ∈ String.utf8EncodeChar c, (b != 0) = true := by
        intro b hb
        rw [bne_iff_ne]
        rintro rfl
        exact hc (eq_ofUInt8_of_mem hb (by decide))
      rw [List.takeWhile_cons_of_pos (by simpa using hc), List.flatMap_cons, List.flatMap_cons,
        List.takeWhile_append_of_pos hpos, ih]

/-- Bytes that a text starts with are text where a zero byte ends them. -/
theorem isText_takeWhile_iff {bytes : Bytes} {text : String} (h : bytes <+: utf8 text) :
    IsText (bytes.takeWhile (· != 0)) ↔ IsText bytes ∨ 0 ∈ bytes := by
  by_cases hzero : 0 ∈ bytes
  · obtain ⟨rest, hrest⟩ := h
    have hsame : bytes.takeWhile (· != 0) = (utf8 text).takeWhile (· != 0) := by
      rw [← hrest, Padding.takeWhile_append_of_mem hzero]
    rw [hsame]
    exact ⟨fun _ => .inr hzero, fun _ => ⟨upToZero text, utf8_upToZero text⟩⟩
  · have hself : bytes.takeWhile (· != 0) = bytes := by
      simpa using Padding.takeWhile_fill hzero 0
    rw [hself]
    exact ⟨.inl, fun h => h.resolve_right hzero⟩

end Text

namespace Padding

variable {padding : Padding} {width : Nat}

/-- The bytes of a text that get into its slot. -/
def cut (padding : Padding) (width : Nat) (text : String) : Bytes :=
  (Text.utf8 text).take (padding.room width)

/-- **Whether a slot is text once a text was cut to it**: the cut falls
between characters, or a zero byte ends the text before. -/
def LeavesText (padding : Padding) (width : Nat) (text : String) : Prop :=
  Text.IsText (padding.cut width text) ∨ padding ≠ .spaces ∧ 0 ∈ padding.cut width text

/-- Blanks at the end do not make a difference to whether bytes are text. -/
theorem isText_trim_spaces_iff (slot : Bytes) :
    Text.IsText (trim .spaces slot) ↔ Text.IsText slot := by
  have hslot : slot = trim .spaces slot ++ (slot.reverse.takeWhile isBlank).reverse := by
    rw [trim, ← List.reverse_append, List.takeWhile_append_dropWhile, List.reverse_reverse]
  have hblank : ∀ b ∈ (slot.reverse.takeWhile isBlank).reverse, b.toNat < 128 := by
    have hall : (slot.reverse.takeWhile isBlank).all isBlank = true := List.all_takeWhile
    intro b hb
    have hisBlank := List.all_eq_true.1 hall b (List.mem_reverse.1 hb)
    simp only [isBlank, Bool.or_eq_true, beq_iff_eq] at hisBlank
    rcases hisBlank with rfl | rfl <;> decide
  exact (Text.isText_append_iff hblank).symm.trans (iff_of_eq (congrArg Text.IsText hslot.symm))

/-- **Which slots are text**, once a text was written to them. -/
theorem isSome_text?_fill (text : String) :
    (padding.text? (padding.fill (Text.utf8 text) width)).isSome = true ↔
      padding.LeavesText width text := by
  have hcut : padding.cut width text <+: Text.utf8 text := List.take_prefix _ _
  rw [text?, Text.isSome_ofUtf8?_iff, trim_fill_eq, ← cut, LeavesText]
  cases padding with
  | terminated => simpa [trim] using Text.isText_takeWhile_iff hcut
  | zeros => simpa [trim] using Text.isText_takeWhile_iff hcut
  | spaces => simpa using isText_trim_spaces_iff _

/-- **What is read is a front of the text** that was written. -/
theorem isPrefix_of_text?_fill {text front : String}
    (h : padding.text? (padding.fill (Text.utf8 text) width) = some front) :
    front.toList <+: text.toList := by
  have hbytes : Text.utf8 front = padding.trim (padding.cut width text) := by
    rw [Text.utf8_of_ofUtf8? h, trim_fill_eq, cut]
  refine Text.isPrefix_of_utf8 ?_
  rw [hbytes]
  exact (trim_isPrefix _ _).trans (List.take_prefix _ _)

/-- **All of the text is read** if it fits, has no zero character and does not
end in a space. -/
theorem text?_fill_of_fits {text : String} (hroom : (Text.utf8 text).length ≤ padding.room width)
    (hzero : '\x00' ∉ text.toList) (hspace : text.toList.getLast? ≠ some ' ') :
    padding.text? (padding.fill (Text.utf8 text) width) = some text := by
  have hnonzero : 0 ∉ Text.utf8 text := by
    rw [Text.utf8_eq_flatMap, List.mem_flatMap]
    rintro ⟨c, hc, hmem⟩
    rw [Text.eq_ofUInt8_of_mem hmem (by decide)] at hc
    exact hzero hc
  have hlast : ∀ b ∈ (Text.utf8 text).getLast?, isBlank b = false := by
    intro b hb
    obtain ⟨bytes, hbytes⟩ := List.getLast?_eq_some_iff.1 hb
    rw [← Bool.not_eq_true, isBlank, Bool.or_eq_true, beq_iff_eq, beq_iff_eq]
    rintro (rfl | rfl)
    · obtain ⟨front, hfront, -⟩ := Text.exists_snoc hbytes (by decide)
      rw [hfront, List.getLast?_concat] at hspace
      exact hspace rfl
    · exact hnonzero (List.mem_of_getLast? hb)
  have hholds : padding.Holds width (Text.utf8 text) := by
    cases padding with
    | terminated => exact ⟨hroom, hnonzero⟩
    | zeros => exact ⟨hroom, hnonzero⟩
    | spaces => exact ⟨hroom, hlast⟩
  rw [text?, trim_fill hholds, Text.ofUtf8?_utf8]

end Padding

end TypedAttr
