import TypedAttr.Reference.Record
/-!
# Recency lists

Records of distinct tokens, the one that was used last in front. A use moves
a record to the front, and what is too much falls off the back.
-/

namespace TypedAttr

/-- Records of distinct tokens, the one that was used last in front. -/
@[ext]
structure RecencyList where
  records : List Record
  nodup : (records.map Record.token).Nodup

namespace RecencyList

/-- No records. -/
def empty : RecencyList := ⟨[], List.nodup_nil⟩

/-- A record in front, and no other of its token. -/
def touch (record : Record) (list : RecencyList) : RecencyList where
  records := record :: list.records.filter (·.token ≠ record.token)
  nodup := by
    rw [List.map_cons, List.nodup_cons]
    constructor
    · intro hmem
      obtain ⟨other, hother, htoken⟩ := List.mem_map.1 hmem
      exact of_decide_eq_true (List.mem_filter.1 hother).2 htoken
    · exact list.nodup.sublist (List.filter_sublist.map _)

/-- What is left of a list if there is room for so many records; zero means
any number. -/
def bounded (capacity : Nat) (list : RecencyList) : RecencyList where
  records := if capacity = 0 then list.records else list.records.take capacity
  nodup := by
    split
    · exact list.nodup
    · exact list.nodup.sublist ((List.take_sublist capacity _).map _)

/-- A list without the record that was used first. -/
def dropOldest (list : RecencyList) : RecencyList where
  records := list.records.dropLast
  nodup := list.nodup.sublist (List.dropLast_sublist _ |>.map _)

/-- The record of a token. -/
def find? (list : RecencyList) (token : Token) : Option Record :=
  list.records.find? (·.token = token)

/-- The record of a token, which is thereby used. -/
def get (token : Token) (list : RecencyList) : Option Record × RecencyList :=
  match list.find? token with
  | none => (none, list)
  | some record => (some record, list.touch record)

/-- Keeps a record, as far as there is room. -/
def insert (capacity : Nat) (record : Record) (list : RecencyList) : RecencyList :=
  (list.touch record).bounded capacity

@[simp] theorem records_touch (record : Record) (list : RecencyList) :
    (list.touch record).records =
      record :: list.records.filter (·.token ≠ record.token) := rfl

@[simp] theorem records_bounded (capacity : Nat) (list : RecencyList) :
    (list.bounded capacity).records =
      if capacity = 0 then list.records else list.records.take capacity := rfl

@[simp] theorem records_dropOldest (list : RecencyList) :
    list.dropOldest.records = list.records.dropLast := rfl

theorem find?_eq_none {list : RecencyList} {token : Token} :
    list.find? token = none ↔ ∀ record ∈ list.records, record.token ≠ token := by
  simp [find?]

/-- A record that is new has all others behind it. -/
theorem records_touch_of_find?_eq_none {list : RecencyList} {record : Record}
    (h : list.find? record.token = none) :
    (list.touch record).records = record :: list.records := by
  rw [records_touch, List.filter_eq_self.2]
  intro other hother
  exact decide_eq_true (find?_eq_none.1 h other hother)

theorem length_touch_le (list : RecencyList) (record : Record) :
    (list.touch record).records.length ≤ list.records.length + 1 :=
  Nat.succ_le_succ (List.length_filter_le _ _)

/-- A record of a token that is there takes the place of another. -/
theorem length_touch_of_find? {list : RecencyList} {record other : Record}
    (h : list.find? record.token = some other) :
    (list.touch record).records.length ≤ list.records.length := by
  have htoken : other.token = record.token := by simpa using List.find?_some h
  refine List.length_filter_lt_length_iff_exists.2 ⟨other, List.mem_of_find?_eq_some h, ?_⟩
  simpa using htoken

/-- A list for which there is room is left as it is. -/
theorem bounded_of_le {capacity : Nat} {list : RecencyList}
    (h : 0 < capacity → list.records.length ≤ capacity) : list.bounded capacity = list := by
  ext1
  rw [records_bounded]
  split
  · rfl
  · exact List.take_of_length_le (h (by omega))

/-- If there is room for one record less, the oldest one falls off. -/
theorem bounded_touch_of_full {capacity : Nat} {list : RecencyList} {record : Record}
    (hcapacity : 0 < capacity) (hfull : list.records.length = capacity)
    (hnew : list.find? record.token = none) :
    (list.touch record).bounded capacity = list.dropOldest.touch record := by
  have hrest : list.dropOldest.find? record.token = none :=
    find?_eq_none.2 fun other hother =>
      find?_eq_none.1 hnew other ((List.dropLast_sublist _).subset hother)
  obtain ⟨room, rfl⟩ : ∃ room, capacity = room + 1 := ⟨capacity - 1, by omega⟩
  ext1
  rw [records_bounded, if_neg (by omega), records_touch_of_find?_eq_none hnew,
    records_touch_of_find?_eq_none hrest, List.take_succ_cons, records_dropOldest,
    List.dropLast_eq_take, hfull, Nat.add_sub_cancel]

end RecencyList

end TypedAttr
