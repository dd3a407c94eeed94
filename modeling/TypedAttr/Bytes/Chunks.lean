/-!
# Whole chunks

A packed list is a run of chunks of one length. What is left over at the
end, too short for a chunk, is dropped, and a chunk length of zero gives no
chunks.
-/

namespace TypedAttr

/-- The chunks of `n` items that fit into a list, in order. -/
def wholeChunks {α : Type} (n : Nat) (items : List α) : List (List α) :=
  (List.range (items.length / n)).map fun i => (items.drop (i * n)).take n

@[simp] theorem length_wholeChunks {α : Type} (n : Nat) (items : List α) :
    (wholeChunks n items).length = items.length / n := by
  simp [wholeChunks]

/-- Every chunk is full. -/
theorem length_of_mem_wholeChunks {α : Type} {n : Nat} {items chunk : List α}
    (h : chunk ∈ wholeChunks n items) : chunk.length = n := by
  obtain ⟨i, hi, rfl⟩ := List.mem_map.1 h
  have hi : i + 1 ≤ items.length / n := List.mem_range.1 hi
  have fits : (i + 1) * n ≤ items.length :=
    Nat.le_trans (Nat.mul_le_mul_right n hi) (Nat.div_mul_le_self _ _)
  rw [Nat.add_mul] at fits
  simp only [List.length_take, List.length_drop]
  omega

end TypedAttr
