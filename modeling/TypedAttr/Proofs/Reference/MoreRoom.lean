import TypedAttr.Proofs.Reference.Recency
/-!
# More room never holds less

The same calls of a recency list and of one with more room leave the first
`Within` the second: its records are some of the other's, in the same order,
and it is the other one as long as it was never full. Order is what carries
this through an overflow, since the record that either list drops is its last
one. Every call preserves it (`within_runList`), so what is found in a cache
is found in one with more room (`find?_of_runs_of_moreRoom`).
-/

namespace TypedAttr

namespace RecencyList

variable {small large : RecencyList} {record other : Record} {token : Token}

/-! ## Records in one list and another -/

/-- The records before and behind one of them are of other tokens. -/
theorem exists_split_of_mem {list : RecencyList} (hmem : record ∈ list.records) :
    ∃ front back, list.records = front ++ record :: back ∧
      ∀ other ∈ front ++ back, other.token ≠ record.token := by
  obtain ⟨front, back, hsplit⟩ := List.append_of_mem hmem
  have hnodup := list.nodup
  rw [hsplit, List.map_append, List.map_cons, List.nodup_append, List.nodup_cons] at hnodup
  obtain ⟨-, ⟨hback, -⟩, hfront⟩ := hnodup
  refine ⟨front, back, hsplit, fun other hother htoken => ?_⟩
  rcases List.mem_append.1 hother with hother | hother
  · exact hfront _ (List.mem_map_of_mem hother) _ List.mem_cons_self htoken
  · exact hback (htoken ▸ List.mem_map_of_mem hother)

/-- The only record of a token is the one that is found. -/
theorem find?_of_mem {list : RecencyList} (hmem : record ∈ list.records) :
    list.find? record.token = some record := by
  obtain ⟨front, back, hsplit, hothers⟩ := exists_split_of_mem hmem
  refine List.find?_eq_some_iff_append.2 ⟨decide_eq_true rfl, front, back, hsplit, ?_⟩
  intro other hother
  simpa using hothers other (List.mem_append_left _ hother)

/-- What is in a part of a list is found in all of it. -/
theorem find?_of_sublist (h : small.records.Sublist large.records)
    (hfind : small.find? token = some record) : large.find? token = some record := by
  obtain rfl : record.token = token := by simpa using List.find?_some hfind
  exact find?_of_mem (h.subset (List.mem_of_find?_eq_some hfind))

/-- A use of one record in both leaves the order of the others. -/
theorem sublist_touch (h : small.records.Sublist large.records) (record : Record) :
    (small.touch record).records.Sublist (large.touch record).records :=
  (h.filter _).cons_cons record

/-- A record that takes the place of another leaves the others. -/
theorem length_touch_of_find?_eq {list : RecencyList}
    (h : list.find? record.token = some other) :
    (list.touch record).records.length = list.records.length := by
  have htoken : other.token = record.token := by simpa using List.find?_some h
  obtain ⟨front, back, hsplit, hothers⟩ := exists_split_of_mem (List.mem_of_find?_eq_some h)
  rw [htoken] at hothers
  have hrest : list.records.filter (·.token ≠ record.token) = front ++ back := by
    rw [hsplit, List.filter_append, List.filter_cons_of_neg (by simpa using htoken),
      ← List.filter_append]
    exact List.filter_eq_self.2 fun other hother => decide_eq_true (hothers other hother)
  rw [records_touch, hrest, hsplit]
  simp only [List.length_cons, List.length_append]
  omega

/-- Two lists without their last records. -/
theorem sublist_dropOldest (h : small.records.Sublist large.records) :
    small.dropOldest.records.Sublist large.dropOldest.records := by
  have htails := (List.reverse_sublist.2 h).tail
  rw [List.tail_reverse, List.tail_reverse] at htails
  exact List.reverse_sublist.1 htails

/-! ## One list within another -/

/-- **A list is within one with more room**, after the same calls of both. -/
structure Within (capacity more : Nat) (small large : RecencyList) : Prop where
  sublist : small.records.Sublist large.records
  /-- What was never full has lost nothing. -/
  eq_of_room : capacity = 0 ∨ small.records.length < capacity → large = small
  length_le : 0 < capacity → small.records.length ≤ capacity
  length_le_more : 0 < more → large.records.length ≤ more

namespace Within

variable {capacity more : Nat}

theorem empty (capacity more : Nat) : Within capacity more .empty .empty :=
  ⟨.refl _, fun _ => rfl, fun _ => Nat.zero_le _, fun _ => Nat.zero_le _⟩

/-- What is in the second list only was dropped by the first, which is full. -/
theorem full_of_new (h : Within capacity more small large) (hnew : small.find? token = none)
    (hold : large.find? token = some record) :
    0 < capacity ∧ small.records.length = capacity := by
  have hfull : ¬(capacity = 0 ∨ small.records.length < capacity) := fun hroom => by
    rw [h.eq_of_room hroom, hnew] at hold
    cases hold
  have := h.length_le
  omega

/-- Looking for a record in both. -/
theorem get (h : Within capacity more small large) (token : Token) :
    Within capacity more (small.get token).2 (large.get token).2 := by
  rw [RecencyList.get, RecencyList.get]
  cases hsmall : small.find? token with
  | some record =>
    have htoken : record.token = token := by simpa using List.find?_some hsmall
    have hlarge := find?_of_sublist h.sublist hsmall
    rw [hlarge]
    rw [← htoken] at hsmall hlarge
    have hlength := length_touch_of_find?_eq hsmall
    have hlength' := length_touch_of_find?_eq hlarge
    refine ⟨sublist_touch h.sublist record, fun hroom => ?_, hlength ▸ h.length_le,
      hlength' ▸ h.length_le_more⟩
    rw [hlength] at hroom
    rw [h.eq_of_room hroom]
  | none =>
    cases hlarge : large.find? token with
    | none => exact h
    | some record =>
      have htoken : record.token = token := by simpa using List.find?_some hlarge
      obtain ⟨hcapacity, hfull⟩ := h.full_of_new hsmall hlarge
      have hlength := length_touch_of_find?_eq (htoken.symm ▸ hlarge)
      refine ⟨?_, fun hroom => ?_, h.length_le, hlength ▸ h.length_le_more⟩
      · -- the record that moves is none of the first list's
        have hothers : small.records.filter (·.token ≠ record.token) = small.records :=
          List.filter_eq_self.2 fun other hother =>
            decide_eq_true (htoken ▸ find?_eq_none.1 hsmall other hother)
        rw [RecencyList.records_touch, ← hothers]
        exact (h.sublist.filter _).cons record
      · dsimp only at hroom
        omega

/-- Keeping a record in both. -/
theorem insert (h : Within capacity more small large)
    (hmore : more = 0 ∨ 0 < capacity ∧ capacity ≤ more) (record : Record) :
    Within capacity more (small.insert capacity record) (large.insert more record) := by
  rw [RecencyList.insert, RecencyList.insert]
  have hlong := large.length_touch_le record
  have hlarge_of_le (hle : 0 < more → (large.touch record).records.length ≤ more) :
      (large.touch record).bounded more = large.touch record := bounded_of_le hle
  cases hsmall : small.find? record.token with
  | some other =>
    -- both have a record of the token, and no other is dropped
    have hlarge := find?_of_sublist h.sublist hsmall
    have hlength := length_touch_of_find?_eq hsmall
    have hlength' := length_touch_of_find?_eq hlarge
    rw [bounded_of_le (hlength ▸ h.length_le), bounded_of_le (hlength' ▸ h.length_le_more)]
    refine ⟨sublist_touch h.sublist record, fun hroom => ?_, hlength ▸ h.length_le,
      hlength' ▸ h.length_le_more⟩
    rw [hlength] at hroom
    rw [h.eq_of_room hroom]
  | none =>
    have hshort : (small.touch record).records.length = small.records.length + 1 := by
      rw [records_touch_of_find?_eq_none hsmall, List.length_cons]
    by_cases hroom : capacity = 0 ∨ small.records.length < capacity
    · -- the lists are the same, and both have room
      obtain rfl := h.eq_of_room hroom
      rw [bounded_of_le (by omega), bounded_of_le (by omega)]
      exact ⟨.refl _, fun _ => rfl, by omega, by omega⟩
    · have hcapacity : 0 < capacity := by omega
      have hfull : small.records.length = capacity := by
        have := h.length_le hcapacity
        omega
      have hnew : small.dropOldest.find? record.token = none :=
        find?_eq_none.2 fun other hother =>
          find?_eq_none.1 hsmall other ((List.dropLast_sublist _).subset hother)
      have hlast : (small.dropOldest.touch record).records.length = capacity := by
        rw [records_touch_of_find?_eq_none hnew, List.length_cons, records_dropOldest,
          List.length_dropLast]
        omega
      rw [bounded_touch_of_full hcapacity hfull hsmall]
      have hrest : small.dropOldest.records.Sublist small.records := List.dropLast_sublist _
      by_cases hover : 0 < more ∧ more < (large.touch record).records.length
      · -- the second list is full, too, and drops its own last record
        have hlarge : large.find? record.token = none := by
          cases hfind : large.find? record.token with
          | none => rfl
          | some other =>
            have := length_touch_of_find?_eq hfind
            have := h.length_le_more hover.1
            omega
        have hfull' : large.records.length = more := by
          have := h.length_le_more hover.1
          omega
        rw [bounded_touch_of_full hover.1 hfull' hlarge]
        refine ⟨sublist_touch (sublist_dropOldest h.sublist) record, by omega, by omega,
          fun _ => ?_⟩
        have := large.dropOldest.length_touch_le record
        rw [records_dropOldest, List.length_dropLast] at this
        omega
      · rw [hlarge_of_le (by omega)]
        exact ⟨sublist_touch (hrest.trans h.sublist) record, by omega, by omega, by omega⟩

end Within

end RecencyList

namespace RecordCache

variable {capacity more : Nat} {small large : RecencyList}

/-! ## Calls -/

/-- A list after calls, one after the other. -/
def listAfter (capacity : Nat) (calls : List Call) (list : RecencyList) : RecencyList :=
  calls.foldl (fun list call => (call.runList capacity list).2) list

/-- A cache that holds a list holds it after calls, too. -/
theorem holds_after {cache last : RecordCache} {list : RecencyList} {calls : List Call}
    {answers : List Answer} (hruns : Runs cache calls answers last) (h : Holds cache list) :
    Holds last (listAfter cache.capacity calls list) := by
  induction hruns generalizing list with
  | nil hlast => exact h.reorder hlast
  | @cons cache found last call calls answers hfound hrest ih =>
    have hstep := ih (holds_run (h.reorder hfound) call).2
    rwa [capacity_run, hfound.capacity] at hstep

/-- **A call of both lists** leaves the first within the second. -/
theorem within_runList (h : RecencyList.Within capacity more small large)
    (hmore : more = 0 ∨ 0 < capacity ∧ capacity ≤ more) (call : Call) :
    RecencyList.Within capacity more (call.runList capacity small).2
      (call.runList more large).2 := by
  cases call with
  | get token => exact h.get token
  | insert record => exact h.insert hmore record
  | clear => exact .empty capacity more
  | contains | size | isEmpty => exact h

theorem within_listAfter (h : RecencyList.Within capacity more small large)
    (hmore : more = 0 ∨ 0 < capacity ∧ capacity ≤ more) (calls : List Call) :
    RecencyList.Within capacity more (listAfter capacity calls small)
      (listAfter more calls large) := by
  unfold listAfter
  induction calls generalizing small large with
  | nil => exact h
  | cons call rest ih => exact ih (within_runList h hmore call)

/-- **What a cache holds, one with more room holds, too**, after the same
calls of both, and in whatever order either has its entries. -/
theorem find?_of_runs_of_moreRoom (hmore : more = 0 ∨ 0 < capacity ∧ capacity ≤ more)
    {calls : List Call} {answers answers' : List Answer} {last last' : RecordCache}
    (hruns : Runs (ofCapacity capacity) calls answers last)
    (hruns' : Runs (ofCapacity more) calls answers' last') {token : Token}
    {stamped : StampedRecord} (hfind : last.find? token = some stamped) :
    ∃ stamped', last'.find? token = some stamped' ∧ stamped'.record = stamped.record := by
  obtain ⟨ranked, hranked⟩ := (holds_after hruns (.ofCapacity capacity)).ranking
  obtain ⟨ranked', hranked'⟩ := (holds_after hruns' (.ofCapacity more)).ranking
  have hwithin := within_listAfter (.empty capacity more) hmore calls
  have hlist := hranked.find?_list token
  rw [hfind] at hlist
  have hlist' := RecencyList.find?_of_sublist hwithin.sublist hlist
  exact Option.map_eq_some_iff.1 ((hranked'.find?_list token).symm.trans hlist')

end RecordCache

end TypedAttr
