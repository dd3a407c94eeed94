import TypedAttr.Proofs.Datatype.Tree
import TypedAttr.Bytes.Word
/-!
# Layout of elements

Where in an element's bytes each leaf of its datatype lies. `layout` lists
the leaves with their offsets, the members of a compound one behind the
other and an array's items at multiples of the base's size; no leaf reaches
past the element's end (`end_le_size`). What is said of a leaf's bytes is
said of the member's or the item's own bytes (`Slot.bytes_shift`,
`Slot.bytes_take`).
-/

namespace TypedAttr

/-- A slot within the front of a list is a slot of the list. -/
theorem take_drop_take {β : Type} {items : List β} {length offset size : Nat}
    (h : offset + size ≤ length) :
    ((items.take length).drop offset).take size = (items.drop offset).take size := by
  rw [List.drop_take, List.take_take, Nat.min_eq_left (by omega)]

namespace Datatype

/-- A leaf's place in an element. -/
structure Slot where
  /-- Where in the element's bytes the leaf starts. -/
  offset : Nat
  type : Datatype

namespace Slot

/-- The same leaf of an element that starts later. -/
def shift (distance : Nat) (slot : Slot) : Slot := { slot with offset := distance + slot.offset }

/-- The bytes of the leaf in those of its element. -/
def bytes (slot : Slot) (element : Bytes) : Bytes :=
  (element.drop slot.offset).take slot.type.size

@[simp] theorem shift_type (distance : Nat) (slot : Slot) :
    (slot.shift distance).type = slot.type :=
  rfl

/-- The bytes of a leaf that was shifted are its bytes further on. -/
theorem bytes_shift (distance : Nat) (slot : Slot) (element : Bytes) :
    (slot.shift distance).bytes element = slot.bytes (element.drop distance) := by
  rw [bytes, bytes, List.drop_drop]
  rfl

/-- What comes after a leaf does not matter to it. -/
theorem bytes_take {slot : Slot} {length : Nat} (h : slot.offset + slot.type.size ≤ length)
    (element : Bytes) : slot.bytes (element.take length) = slot.bytes element :=
  take_drop_take h

/-- Nor what is put behind its element. -/
theorem bytes_append {slot : Slot} {element : Bytes}
    (h : slot.offset + slot.type.size ≤ element.length) (behind : Bytes) :
    slot.bytes (element ++ behind) = slot.bytes element := by
  rw [← bytes_take h (element ++ behind), List.take_left' rfl]

end Slot

mutual

/-- The leaves of an element, each with its offset. -/
def layout : Datatype → List Slot
  | .compound members _ => layoutOfMembers members
  | .array base extents _ =>
    (List.range (gridSize extents)).flatMap fun i => base.layout.map (·.shift (i * base.size))
  | type => [⟨0, type⟩]

/-- The leaves of packed members, each with its offset from the first
member. -/
def layoutOfMembers : List (String × Datatype) → List Slot
  | [] => []
  | (_, type) :: rest => type.layout ++ (layoutOfMembers rest).map (·.shift type.size)

end

/-- An item of an array ends where the array does, or before. -/
theorem item_end_le {i count : Nat} (h : i < count) (size : Nat) :
    i * size + size ≤ count * size := by
  have := Nat.mul_le_mul_right size (Nat.succ_le_of_lt h)
  rwa [Nat.succ_mul] at this

theorem end_le_sizeOfMembers {members : List (String × Datatype)}
    (h : ∀ member ∈ members, ∀ slot ∈ member.2.layout,
      slot.offset + slot.type.size ≤ member.2.size) :
    ∀ slot ∈ layoutOfMembers members, slot.offset + slot.type.size ≤ sizeOfMembers members := by
  induction members with
  | nil => simp [layoutOfMembers]
  | cons member rest ih =>
    intro slot hslot
    rw [layoutOfMembers, List.mem_append, List.mem_map] at hslot
    rw [sizeOfMembers]
    rcases hslot with hslot | ⟨later, hlater, rfl⟩
    · have := h member (by simp) slot hslot
      omega
    · have := ih (fun member hmember => h member (List.mem_cons_of_mem _ hmember)) later hlater
      simp only [Slot.shift]
      omega

/-- **Every leaf lies inside its element.** -/
theorem end_le_size {type : Datatype} {slot : Slot} (h : slot ∈ type.layout) :
    slot.offset + slot.type.size ≤ type.size := by
  induction type generalizing slot with
  | compound members traits ih =>
    rw [size]
    exact end_le_sizeOfMembers (fun member hmember _ hslot => ih member hmember hslot) slot h
  | array base extents traits ih =>
    simp only [layout, List.mem_flatMap, List.mem_range, List.mem_map] at h
    obtain ⟨i, hi, leaf, hleaf, rfl⟩ := h
    have hinside := ih hleaf
    have hitem := item_end_le hi base.size
    simp only [Slot.shift, size]
    omega
  | integer | float | fixedText | varText | bitfield | blob | time | noClass | sequence
  | enumeration | reference =>
    simp only [layout, List.mem_singleton] at h
    simp [h]

end Datatype

end TypedAttr
