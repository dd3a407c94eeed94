import TypedAttr.Datatype.Members
import Mathlib.Logic.ExistsUnique
/-!
# Packed members and items

The members of a compound lie one behind the other, each where the sizes of
those before it end (`memberOffsets_compound`). So every byte of a compound
belongs to one member and to no other (`existsUnique_ownsByte`). The items of
an array are numbered place by place, the last index varying fastest
(`map_placeNumber`).
-/

namespace TypedAttr

/-! ## Places in grids -/

/-- The places of a grid, each with one index per axis, in row-major order:
the last index varies fastest. -/
def places : (extents : List Nat) → List (List Nat)
  | [] => [[]]
  | extent :: rest => (List.range extent).flatMap fun i => (places rest).map (i :: ·)

/-- The number of a place in row-major order: a step along an axis passes all
places of the axes behind it. -/
def placeNumber : (extents place : List Nat) → Nat
  | _ :: rest, i :: place => i * gridSize rest + placeNumber rest place
  | _, _ => 0

/-- Rows of one length, numbered through. -/
theorem flatMap_range_add (rows length : Nat) :
    ((List.range rows).flatMap fun i => (List.range length).map (i * length + ·)) =
      List.range (rows * length) := by
  induction rows with
  | zero => simp
  | succ rows ih =>
    rw [List.range_succ, List.flatMap_append, ih, List.flatMap_singleton, Nat.succ_mul,
      List.range_add]

/-- **The places of a grid are numbered in their order**, from zero on. -/
theorem map_placeNumber (extents : List Nat) :
    (places extents).map (placeNumber extents) = List.range (gridSize extents) := by
  induction extents with
  | nil => rfl
  | cons extent rest ih =>
    have hrow (i : Nat) : ((places rest).map (i :: ·)).map (placeNumber (extent :: rest)) =
        (List.range (gridSize rest)).map (i * gridSize rest + ·) := by
      rw [← ih, List.map_map, List.map_map]
      rfl
    rw [places, List.map_flatMap, gridSize, ← flatMap_range_add]
    simp only [hrow]

/-- Each place has a number below their count. -/
theorem placeNumber_lt {extents place : List Nat} (h : place ∈ places extents) :
    placeNumber extents place < gridSize extents := by
  rw [← List.mem_range, ← map_placeNumber]
  exact List.mem_map_of_mem h

namespace Datatype

variable {member : String × Datatype} {members rest : List (String × Datatype)} {i j p : Nat}

/-! ## Offsets of members -/

/-- Where a member starts, given by its number: behind the bytes of all
members before it. -/
def offsetOf (members : List (String × Datatype)) (i : Nat) : Nat :=
  sizeOfMembers (members.take i)

@[simp] theorem offsetOf_zero (members : List (String × Datatype)) : offsetOf members 0 = 0 := rfl

@[simp] theorem offsetOf_cons_succ (member : String × Datatype)
    (rest : List (String × Datatype)) (i : Nat) :
    offsetOf (member :: rest) (i + 1) = member.2.size + offsetOf rest i :=
  rfl

theorem offsetsFrom_eq_map (start : Nat) (members : List (String × Datatype)) :
    offsetsFrom start members =
      (List.range members.length).map fun i => start + offsetOf members i := by
  induction members generalizing start with
  | nil => rfl
  | cons member rest ih =>
    rw [offsetsFrom, ih, List.length_cons, List.range_succ_eq_map, List.map_cons, List.map_map]
    simp only [Function.comp_def, offsetOf_zero, Nat.add_zero, Nat.succ_eq_add_one,
      offsetOf_cons_succ, Nat.add_assoc]

/-- **The offsets of a compound's members** are the sums of the sizes before
them. -/
theorem memberOffsets_compound (members : List (String × Datatype)) (traits : Traits) :
    (compound members traits).memberOffsets =
      (List.range members.length).map (offsetOf members) := by
  rw [memberOffsets, offsetsFrom_eq_map]
  simp only [Nat.zero_add, Datatype.members]

/-- A member ends where its compound does, or before. -/
theorem offsetOf_add_size_le (h : members[i]? = some member) :
    offsetOf members i + member.2.size ≤ sizeOfMembers members := by
  induction members generalizing i with
  | nil => simp at h
  | cons first rest ih =>
    rw [sizeOfMembers]
    cases i with
    | zero =>
      obtain rfl : first = member := by simpa using h
      rw [offsetOf_zero]
      omega
    | succ i =>
      have hlater := ih (by simpa using h)
      rw [offsetOf_cons_succ]
      omega

/-- Where pieces as long as the members are joined, each is found in the slot
of its member. -/
theorem take_drop_flatten {β : Type} {pieces : List (List β)} {piece : List β}
    (h : ∀ j : Nat, pieces[j]?.map List.length = members[j]?.map (·.2.size))
    (hmember : members[i]? = some member) (hpiece : pieces[i]? = some piece) :
    (pieces.flatten.drop (offsetOf members i)).take member.2.size = piece := by
  induction members generalizing pieces i with
  | nil => simp at hmember
  | cons first rest ih =>
    cases pieces with
    | nil => simp at hpiece
    | cons own pieces =>
      have hown : own.length = first.2.size := by simpa using h 0
      rw [List.flatten_cons]
      cases i with
      | zero =>
        obtain rfl : first = member := by simpa using hmember
        obtain rfl : own = piece := by simpa using hpiece
        rw [offsetOf_zero, List.drop_zero, List.take_left' hown]
      | succ i =>
        rw [offsetOf_cons_succ, ← hown, List.drop_length_add_append]
        exact ih (fun j => by simpa using h (j + 1)) (by simpa using hmember) (by simpa using hpiece)

/-! ## Bytes of members -/

/-- Whether a byte of a compound is in the slot of the member of a number. -/
def OwnsByte (members : List (String × Datatype)) (i p : Nat) : Prop :=
  ∃ member, members[i]? = some member ∧
    offsetOf members i ≤ p ∧ p < offsetOf members i + member.2.size

theorem ownsByte_zero : OwnsByte (member :: rest) 0 p ↔ p < member.2.size := by
  simp [OwnsByte]

theorem ownsByte_succ :
    OwnsByte (member :: rest) (i + 1) p ↔
      member.2.size ≤ p ∧ OwnsByte rest i (p - member.2.size) := by
  simp only [OwnsByte, List.getElem?_cons_succ, offsetOf_cons_succ]
  constructor
  · rintro ⟨own, hown, hstart, hend⟩
    exact ⟨by omega, own, hown, by omega, by omega⟩
  · rintro ⟨hfirst, own, hown, hstart, hend⟩
    exact ⟨own, hown, by omega, by omega⟩

/-- **No byte is in the slots of two members.** -/
theorem OwnsByte.unique (hi : OwnsByte members i p) (hj : OwnsByte members j p) : i = j := by
  induction members generalizing i j p with
  | nil =>
    obtain ⟨member, hmember, -⟩ := hi
    simp at hmember
  | cons member rest ih =>
    match i, j with
    | 0, 0 => rfl
    | 0, j + 1 =>
      have hfirst := ownsByte_zero.1 hi
      have hlater := (ownsByte_succ.1 hj).1
      omega
    | i + 1, 0 =>
      have hfirst := ownsByte_zero.1 hj
      have hlater := (ownsByte_succ.1 hi).1
      omega
    | i + 1, j + 1 => rw [ih (ownsByte_succ.1 hi).2 (ownsByte_succ.1 hj).2]

/-- Every byte of a compound is in the slot of a member, and no other byte
is. -/
theorem exists_ownsByte_iff : (∃ i, OwnsByte members i p) ↔ p < sizeOfMembers members := by
  induction members generalizing p with
  | nil => simp [OwnsByte, sizeOfMembers]
  | cons member rest ih =>
    rw [sizeOfMembers, ← Nat.or_exists_add_one, ownsByte_zero]
    simp only [ownsByte_succ, exists_and_left, ih]
    omega

/-- **The slots of members tile a compound**, without a gap and without an
overlap. -/
theorem existsUnique_ownsByte : p < sizeOfMembers members ↔ ∃! i, OwnsByte members i p := by
  rw [← exists_ownsByte_iff]
  constructor
  · rintro ⟨i, hi⟩
    exact ⟨i, hi, fun j hj => hj.unique hi⟩
  · rintro ⟨i, hi, -⟩
    exact ⟨i, hi⟩

end Datatype

end TypedAttr
