import Mathlib.Data.Set.Function
import TypedAttr.Proofs.Data.Words
import TypedAttr.Reference.Region
/-!
# Regions are read off their texts

The text of a region has no numbers in it but the coordinates of its whole
tuples, and between any two of them stands something that is no digit. So the
coordinates are the runs of digits in the text (`numbersIn_pointsText`,
`numbersIn_blocksText`), and the rank need not be known to read them. What is
left over after the last whole tuple leaves no trace (`wholeChunks_wholePart`),
and a stroke tells blocks from points. Blocks have a text as long as a word
counts the coordinates of one (`blocksText?_of_lt`). `texts_unambiguous` puts
this together.
-/

namespace TypedAttr

namespace Region

variable {size rank : Nat} {coordinates : List Nat}

/-! ## Whole tuples -/

/-- The longest beginning of a list that is made of whole tuples. -/
structure IsWholePart (size : Nat) (coordinates whole : List Nat) : Prop where
  begins : whole <+: coordinates
  filled : size ∣ whole.length
  longest : ∀ other, other <+: coordinates → size ∣ other.length → other.length ≤ whole.length

/-- The coordinates of whole tuples, without what is left over. -/
def wholePart (size : Nat) (coordinates : List Nat) : List Nat :=
  coordinates.take (coordinates.length / size * size)

theorem length_wholePart (size : Nat) (coordinates : List Nat) :
    (wholePart size coordinates).length = coordinates.length / size * size := by
  rw [wholePart, List.length_take, Nat.min_eq_left (Nat.div_mul_le_self _ _)]

theorem isWholePart_wholePart (size : Nat) (coordinates : List Nat) :
    IsWholePart size coordinates (wholePart size coordinates) where
  begins := List.take_prefix _ _
  filled := by
    rw [length_wholePart]
    exact Nat.dvd_mul_left _ _
  longest other hbegins hfilled := by
    obtain ⟨count, hcount⟩ := hfilled
    have hfits : size * count ≤ coordinates.length := hcount ▸ hbegins.length_le
    rw [length_wholePart, hcount, Nat.mul_comm size]
    rcases Nat.eq_zero_or_pos size with rfl | hsize
    · rw [Nat.mul_zero, Nat.mul_zero]
    · rw [Nat.mul_comm] at hfits
      exact Nat.mul_le_mul_right size ((Nat.le_div_iff_mul_le hsize).2 hfits)

theorem wholePart_of_dvd (h : size ∣ coordinates.length) :
    wholePart size coordinates = coordinates := by
  rw [wholePart, Nat.div_mul_cancel h, List.take_length]

/-- **What is left over is not cut into tuples.** -/
theorem wholeChunks_wholePart (size : Nat) (coordinates : List Nat) :
    wholeChunks size (wholePart size coordinates) = wholeChunks size coordinates := by
  -- the rest is shorter than a tuple
  have hrest : wholeChunks size (coordinates.drop (coordinates.length / size * size)) = [] := by
    rw [← List.length_eq_zero_iff, length_wholeChunks, List.length_drop,
      ← Nat.mod_eq_sub_div_mul, Nat.mod_div_self]
  have hsplit := wholeChunks_append (length_wholePart size coordinates)
    (coordinates.drop (coordinates.length / size * size))
  rw [hrest, List.append_nil, wholePart, List.take_append_drop] at hsplit
  exact hsplit.symm

/-- The tuples joined again. -/
theorem flatten_wholeChunks_eq (size : Nat) (coordinates : List Nat) :
    (wholeChunks size coordinates).flatten = wholePart size coordinates := by
  rw [← wholeChunks_wholePart, flatten_wholeChunks (length_wholePart size coordinates)]

/-! ## Numbers in a text -/

/-- The numbers in a text: its runs of digits, read in base ten. -/
def numbersIn (text : List Char) : List Nat :=
  ((text.splitOnP fun c => !c.isDigit).filter fun run => !run.isEmpty).map
    fun run => Nat.ofDigitChars 10 run 0

@[simp] theorem numbersIn_nil : numbersIn [] = [] := rfl

/-- **No number goes on over a character that is no digit.** -/
theorem numbersIn_append_cons {c : Char} (hc : c.isDigit = false) (front rest : List Char) :
    numbersIn (front ++ c :: rest) = numbersIn front ++ numbersIn rest := by
  rw [numbersIn, List.splitOnP_append_cons front rest (by simp [hc]), List.filter_append,
    List.map_append]
  rfl

theorem numbersIn_cons {c : Char} (hc : c.isDigit = false) (rest : List Char) :
    numbersIn (c :: rest) = numbersIn rest :=
  numbersIn_append_cons hc [] rest

theorem numbersIn_concat {c : Char} (hc : c.isDigit = false) (front : List Char) :
    numbersIn (front ++ [c]) = numbersIn front := by
  rw [numbersIn_append_cons hc, numbersIn_nil, List.append_nil]

/-- **The digits of a number** are one run, and read as that number. -/
theorem numbersIn_toString (n : Nat) : numbersIn (toString n).toList = [n] := by
  rw [Nat.toString_eq_ofList_toDigits, String.toList_ofList]
  have hdigits : ∀ c ∈ Nat.toDigits 10 n, (!c.isDigit) = false := by
    intro c hc
    rw [Nat.isDigit_of_mem_toDigits (by decide) (by decide) hc]
    rfl
  have hrun : (Nat.toDigits 10 n).isEmpty = false := by simp
  rw [numbersIn, List.splitOnP_eq_singleton hdigits]
  simp only [List.filter_cons, hrun, Bool.not_false, if_true, List.filter_nil, List.map_cons,
    List.map_nil, Nat.ofDigitChars_ten_toDigits]

/-- Pieces with a character between them that is no digit. -/
theorem numbersIn_intercalate {c : Char} (hc : c.isDigit = false) (pieces : List (List Char)) :
    numbersIn ([c].intercalate pieces) = pieces.flatMap numbersIn := by
  induction pieces with
  | nil => rfl
  | cons piece rest ih =>
    cases rest with
    | nil => rw [List.intercalate_singleton, List.flatMap_singleton]
    | cons next rest =>
      rw [List.intercalate_cons_cons, List.append_assoc, List.singleton_append,
        numbersIn_append_cons hc, ih, List.flatMap_cons (x := piece)]

/-! ## Coordinates in a text -/

theorem toList_tuple (coordinates : List Nat) :
    (tuple coordinates).toList =
      '(' :: ([','].intercalate (coordinates.map fun n => (toString n).toList) ++ [')']) := by
  simp [tuple, Function.comp_def]

theorem toList_braced (items : List String) :
    (braced items).toList =
      '\x7b' :: ' ' :: ([' '].intercalate (items.map String.toList) ++ [' '] ++ ['\x7d']) := by
  simp [braced]

theorem numbersIn_tuple (coordinates : List Nat) :
    numbersIn (tuple coordinates).toList = coordinates := by
  rw [toList_tuple, numbersIn_cons (by decide), numbersIn_concat (by decide),
    numbersIn_intercalate (by decide), List.flatMap_map]
  simp only [numbersIn_toString, List.flatMap_singleton']

theorem numbersIn_block (rank : Nat) (coordinates : List Nat) :
    numbersIn (block rank coordinates).toList = coordinates := by
  have hsplit : (block rank coordinates).toList =
      (tuple (coordinates.take rank)).toList ++ '-' :: (tuple (coordinates.drop rank)).toList := by
    simp [block]
  rw [hsplit, numbersIn_append_cons (by decide), numbersIn_tuple, numbersIn_tuple,
    List.take_append_drop]

/-- **The numbers in a text of tuples** are their coordinates, if those of each
tuple can be read off it. -/
theorem numbersIn_braced {shown : List Nat → String}
    (hshown : ∀ tuple, numbersIn (shown tuple).toList = tuple) (tuples : List (List Nat)) :
    numbersIn (braced (tuples.map shown)).toList = tuples.flatten := by
  rw [toList_braced, numbersIn_cons (by decide), numbersIn_cons (by decide),
    numbersIn_concat (by decide), numbersIn_concat (by decide), numbersIn_intercalate (by decide),
    List.map_map, List.flatMap_map]
  simp only [Function.comp_apply, hshown]
  exact List.flatMap_id

/-- **Points** are read off their text. -/
theorem numbersIn_pointsText (rank : Nat) (coordinates : List Nat) :
    numbersIn (pointsText rank coordinates).toList = wholePart rank coordinates := by
  rw [pointsText, numbersIn_braced numbersIn_tuple, flatten_wholeChunks_eq]

/-- **So are blocks.** -/
theorem numbersIn_blocksText (rank : Nat) (coordinates : List Nat) :
    numbersIn (blocksText rank coordinates).toList = wholePart (2 * rank) coordinates := by
  rw [blocksText, numbersIn_braced (numbersIn_block rank), flatten_wholeChunks_eq]

example : numbersIn (blocksText 2 [0, 10, 1, 123, 4]).toList = [0, 10, 1, 123] := by decide

/-- Lists of whole tuples with one text are the same, if the whole tuples of a
list can be read off its text. -/
theorem injOn_of_numbersIn {text : List Nat → String}
    (htext : ∀ coordinates, numbersIn (text coordinates).toList = wholePart size coordinates) :
    Set.InjOn text {coordinates | size ∣ coordinates.length} := by
  intro coordinates hwhole others hothers h
  rw [← wholePart_of_dvd hwhole, ← wholePart_of_dvd hothers, ← htext, h, htext]

/-! ## Blocks and points -/

/-- A character that is not between pieces is in one of them. -/
theorem mem_intercalate {c : Char} {between : List Char} (hc : c ∉ between)
    (pieces : List (List Char)) :
    c ∈ between.intercalate pieces ↔ ∃ piece ∈ pieces, c ∈ piece := by
  induction pieces with
  | nil => simp
  | cons piece rest ih =>
    cases rest with
    | nil => simp
    | cons next rest =>
      rw [List.intercalate_cons_cons, List.mem_append, List.mem_append, ih, or_iff_left hc]
      simp only [List.mem_cons, exists_eq_or_imp]

theorem stroke_notMem_tuple (coordinates : List Nat) : '-' ∉ (tuple coordinates).toList := by
  have hdigits : ∀ n ∈ coordinates, '-' ∉ (toString n).toList := by
    intro n _ hmem
    rw [Nat.toString_eq_ofList_toDigits, String.toList_ofList] at hmem
    exact absurd (Nat.isDigit_of_mem_toDigits (by decide) (by decide) hmem) (by decide)
  rw [toList_tuple]
  simpa [mem_intercalate] using hdigits

theorem stroke_mem_braced (items : List String) :
    '-' ∈ (braced items).toList ↔ ∃ item ∈ items, '-' ∈ item.toList := by
  rw [toList_braced]
  simp [mem_intercalate]

/-- Points have no stroke in their text. -/
theorem stroke_notMem_pointsText (rank : Nat) (coordinates : List Nat) :
    '-' ∉ (pointsText rank coordinates).toList := by
  rw [pointsText, stroke_mem_braced]
  rintro ⟨item, hitem, hstroke⟩
  obtain ⟨point, -, rfl⟩ := List.mem_map.1 hitem
  exact stroke_notMem_tuple point hstroke

/-- Blocks have one, unless there are none. -/
theorem wholeChunks_eq_nil_of_noStroke (h : '-' ∉ (blocksText rank coordinates).toList) :
    wholeChunks (2 * rank) coordinates = [] := by
  refine List.eq_nil_iff_forall_not_mem.2 fun corners hcorners => h ?_
  rw [blocksText, stroke_mem_braced]
  exact ⟨block rank corners, List.mem_map_of_mem hcorners, by simp [block]⟩

/-- A text that is of points and of blocks has no coordinates: without a stroke
there are no blocks in it. -/
theorem wholePart_eq_nil_of_pointsText {points blocks : List Nat} {rank' : Nat}
    (h : pointsText rank points = blocksText rank' blocks) : wholePart rank points = [] := by
  have hnone : wholeChunks (2 * rank') blocks = [] :=
    wholeChunks_eq_nil_of_noStroke (h ▸ stroke_notMem_pointsText rank points)
  rw [← numbersIn_pointsText, h, numbersIn_blocksText, ← flatten_wholeChunks_eq, hnone,
    List.flatten_nil]

/-- **Points are not shown as blocks**, whatever the ranks: one whole point has
coordinates. -/
theorem pointsText_ne_blocksText {points : List Nat} (hrank : 0 < rank)
    (hlength : rank ≤ points.length) (rank' : Nat) (blocks : List Nat) :
    pointsText rank points ≠ blocksText rank' blocks := by
  intro h
  have hnone := congrArg List.length (wholePart_eq_nil_of_pointsText h)
  rw [length_wholePart, List.length_nil] at hnone
  have hone : 0 < points.length / rank := Nat.div_pos hlength hrank
  exact absurd hnone (Nat.mul_pos hone hrank).ne'

/-! ## Texts of regions -/

theorem pointsText_wholePart (rank : Nat) (coordinates : List Nat) :
    pointsText rank (wholePart rank coordinates) = pointsText rank coordinates := by
  rw [pointsText, pointsText, wholeChunks_wholePart]

theorem blocksText_wholePart (rank : Nat) (coordinates : List Nat) :
    blocksText rank (wholePart (2 * rank) coordinates) = blocksText rank coordinates := by
  rw [blocksText, blocksText, wholeChunks_wholePart]

theorem blocksText?_eq_some {text : String} :
    blocksText? rank coordinates = some text ↔
      2 * rank < UInt64.size ∧ blocksText rank coordinates = text := by
  simp [blocksText?, Option.bind_eq_some_iff, wordCount?_eq_some]

theorem blocksText?_of_lt (h : 2 * rank < UInt64.size) :
    blocksText? rank = some ∘ blocksText rank := by
  funext coordinates
  exact blocksText?_eq_some.2 ⟨h, rfl⟩

/-- **Blocks have a text** just if a word counts the coordinates of one. -/
theorem isSome_blocksText? :
    (blocksText? rank coordinates).isSome = true ↔ 2 * rank < UInt64.size := by
  simp [Option.isSome_iff_exists, blocksText?_eq_some]

/-- **The text of a region is unambiguous.** Two lists of whole points that have
one text are the same, and a list of any length has the text of the longest
beginning of it that is made of whole points. If there is one point at least,
points do not have the text of blocks, whatever the rank of those. Blocks have
a text, whatever their coordinates, just if the double of the rank is a word;
and then two lists of whole blocks that have one text are the same, too, and a
list of any length has the text of the longest beginning of it that is made of
whole blocks. -/
theorem texts_unambiguous (hrank : 0 < rank) :
    Set.InjOn (pointsText rank) {points | rank ∣ points.length} ∧
    (∀ coordinates, IsWholePart rank coordinates (wholePart rank coordinates) ∧
      pointsText rank coordinates = pointsText rank (wholePart rank coordinates)) ∧
    (∀ points : List Nat, rank ≤ points.length → ∀ rank' blocks,
      blocksText? rank' blocks ≠ some (pointsText rank points)) ∧
    ((∀ coordinates, (blocksText? rank coordinates).isSome = true) ↔ 2 * rank < UInt64.size) ∧
    (2 * rank < UInt64.size →
      Set.InjOn (blocksText? rank) {blocks | 2 * rank ∣ blocks.length} ∧
      ∀ coordinates, IsWholePart (2 * rank) coordinates (wholePart (2 * rank) coordinates) ∧
        blocksText? rank coordinates = blocksText? rank (wholePart (2 * rank) coordinates)) := by
  refine ⟨injOn_of_numbersIn (numbersIn_pointsText rank),
    fun coordinates => ⟨isWholePart_wholePart _ _, (pointsText_wholePart _ _).symm⟩,
    fun points hlength rank' blocks h => ?_,
    ⟨fun h => isSome_blocksText?.1 (h []), fun h _ => isSome_blocksText?.2 h⟩, fun hword => ?_⟩
  · exact pointsText_ne_blocksText hrank hlength rank' blocks (blocksText?_eq_some.1 h).2.symm
  · rw [blocksText?_of_lt hword]
    refine ⟨fun blocks hblocks others hothers h => ?_, fun coordinates =>
      ⟨isWholePart_wholePart _ _, congrArg some (blocksText_wholePart _ _).symm⟩⟩
    exact injOn_of_numbersIn (numbersIn_blocksText rank) hblocks hothers (Option.some.inj h)

/-- Digits that are parted in another way, corners that could be points, a
coordinate too many, and a rank of which a block is too large. -/
theorem texts_unambiguous_plane :
    0 < 2 ∧ 2 * 2 < UInt64.size ∧ pointsText 2 [1, 23] ≠ pointsText 2 [12, 3] ∧
      blocksText? 2 [0, 0, 1, 23] ≠ blocksText? 2 [0, 0, 12, 3] ∧
      blocksText? 2 [0, 0, 1, 1] ≠ some (pointsText 2 [0, 0, 1, 1]) ∧
      pointsText 2 [1, 2, 3] = pointsText 2 [1, 2] ∧
      ¬∀ coordinates, (blocksText? (UInt64.size / 2) coordinates).isSome = true := by
  obtain ⟨hpoints, hwhole, hapart, -, hword⟩ := @texts_unambiguous 2 (by decide)
  obtain ⟨hblocks, -⟩ := hword (by decide)
  obtain ⟨-, -, -, htext, -⟩ := @texts_unambiguous (UInt64.size / 2) (by decide)
  refine ⟨by decide, by decide, fun h => ?_, fun h => ?_, hapart _ (by decide) 2 _,
    (hwhole [1, 2, 3]).2, fun h => ?_⟩
  · exact absurd (hpoints (by decide : 2 ∣ 2) (by decide : 2 ∣ 2) h) (by decide)
  · exact absurd (hblocks (by decide : 4 ∣ 4) (by decide : 4 ∣ 4) h) (by decide)
  · exact absurd (htext.1 h) (by decide)

end Region

end TypedAttr
