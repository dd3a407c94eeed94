import TypedAttr.Proofs.Reference.Ranking
/-!
# A record cache is a recency list

What a record cache does can be said without counting uses. A cache `Holds` a
recency list if its entries, in the order of their last uses, are the list.
Every call keeps that and answers as the list does, in whatever order the
cache has its entries (`answers_of_runs`).
-/

namespace TypedAttr

namespace RecordCache

/-! ## Calls -/

/-- What a user asks of a cache. -/
inductive Call where
  | get (token : Token)
  | contains (token : Token)
  | size
  | isEmpty
  | insert (record : Record)
  | clear

/-- What a user is told. -/
inductive Answer where
  | found (record : Option Record)
  | truth (b : Bool)
  | count (n : Nat)
  | done
  deriving DecidableEq

/-- A call of a cache. -/
def Call.run : Call → RecordCache → Answer × RecordCache
  | .get token, cache => (.found (cache.get token).1, (cache.get token).2)
  | .contains token, cache => (.truth (cache.contains token), cache)
  | .size, cache => (.count cache.size, cache)
  | .isEmpty, cache => (.truth cache.isEmpty, cache)
  | .insert record, cache => (.done, cache.insert record)
  | .clear, cache => (.done, cache.clear)

/-- The same call of a list with room for so many records. -/
def Call.runList (capacity : Nat) : Call → RecencyList → Answer × RecencyList
  | .get token, list => (.found (list.get token).1, (list.get token).2)
  | .contains token, list => (.truth (list.find? token).isSome, list)
  | .size, list => (.count list.records.length, list)
  | .isEmpty, list => (.truth list.records.isEmpty, list)
  | .insert record, list => (.done, list.insert capacity record)
  | .clear, _ => (.done, .empty)

/-- What a list answers to calls, one after the other. -/
def listAnswers (capacity : Nat) : List Call → RecencyList → List Answer
  | [], _ => []
  | call :: rest, list =>
    (call.runList capacity list).1 :: listAnswers capacity rest (call.runList capacity list).2

/-- Calls one after the other, with their answers. Nothing is taken for
granted of the order in which a cache has its entries: before each call they
are in any. -/
inductive Runs : RecordCache → List Call → List Answer → RecordCache → Prop
  | nil {cache last : RecordCache} (h : Reordered cache last) : Runs cache [] [] last
  | cons {cache found last : RecordCache} {call : Call} {calls : List Call}
      {answers : List Answer} (h : Reordered cache found)
      (hrest : Runs (call.run found).2 calls answers last) :
      Runs cache (call :: calls) ((call.run found).1 :: answers) last

/-- There is a run of any calls. -/
theorem exists_runs (cache : RecordCache) (calls : List Call) :
    ∃ answers last, Runs cache calls answers last := by
  induction calls generalizing cache with
  | nil => exact ⟨[], cache, .nil (.refl cache)⟩
  | cons call rest ih =>
    obtain ⟨answers, last, hrest⟩ := ih (call.run cache).2
    exact ⟨_, last, .cons (.refl cache) hrest⟩

/-! ## Caches that hold a list -/

/-- **A cache holds a list** of records, with no more than it has room for. -/
structure Holds (cache : RecordCache) (list : RecencyList) : Prop where
  ranking : ∃ ranked, Ranking cache list ranked
  room : 0 < cache.capacity → list.records.length ≤ cache.capacity

namespace Holds

variable {cache other : RecordCache} {list : RecencyList}

theorem size_eq (h : Holds cache list) : cache.size = list.records.length := by
  obtain ⟨ranked, hranked⟩ := h.ranking
  rw [← hranked.records, List.length_map, hranked.perm.length_eq, size]

theorem contains_eq (h : Holds cache list) (token : Token) :
    cache.contains token = (list.find? token).isSome := by
  obtain ⟨ranked, hranked⟩ := h.ranking
  rw [hranked.find?_list, contains, Option.isSome_map]

theorem reorder (h : Holds cache list) (hother : Reordered cache other) : Holds other list := by
  obtain ⟨ranked, hranked⟩ := h.ranking
  exact ⟨⟨ranked, hranked.reorder hother⟩, hother.capacity ▸ h.room⟩

theorem ofCapacity (capacity : Nat) : Holds (.ofCapacity capacity) .empty :=
  ⟨⟨[], .nil, rfl, by simp, .nil, by simp⟩, fun _ => Nat.zero_le _⟩

theorem clear (cache : RecordCache) : Holds cache.clear .empty :=
  ⟨⟨[], .nil, rfl, by simp, .nil, by simp⟩, fun _ => Nat.zero_le _⟩

/-- **A record is found where the list has it**, and moves to the front. -/
theorem get (h : Holds cache list) (token : Token) :
    (cache.get token).1 = (list.get token).1 ∧
      Holds (cache.get token).2 (list.get token).2 := by
  obtain ⟨ranked, hranked⟩ := h.ranking
  have hlist := hranked.find?_list token
  cases hfind : cache.find? token with
  | none =>
    rw [hfind] at hlist
    rw [RecordCache.get, hfind, RecencyList.get, hlist]
    exact ⟨rfl, ⟨ranked, hranked.tick⟩, h.room⟩
  | some stamped =>
    rw [hfind] at hlist
    obtain ⟨htoken, hanswer, hreordered⟩ := hranked.reordered_get hfind
    rw [hanswer, RecencyList.get, hlist]
    refine ⟨rfl, ⟨⟨_, (hranked.place stamped.record).reorder hreordered⟩, fun hroom => ?_⟩⟩
    rw [hreordered.capacity] at hroom ⊢
    have htouch : (list.touch stamped.record).records.length ≤ list.records.length :=
      RecencyList.length_touch_of_find? (htoken.symm ▸ hlist)
    exact Nat.le_trans htouch (h.room hroom)

/-- **A record that is kept comes to the front**, and pushes out the last one
if there is no room for both. -/
theorem insert (h : Holds cache list) (record : Record) :
    Holds (cache.insert record) (list.insert cache.capacity record) := by
  obtain ⟨ranked, hranked⟩ := h.ranking
  by_cases hevict : (cache.isFull && !cache.contains record.token) = true
  · have hinsert : cache.insert record = cache.evict.place record := by
      rw [RecordCache.insert, if_pos hevict, place]
    rw [Bool.and_eq_true, isFull, Bool.and_eq_true, decide_eq_true_iff, decide_eq_true_iff,
      h.size_eq, h.contains_eq, Bool.not_eq_true', Option.isSome_eq_false_iff,
      Option.isNone_iff_eq_none] at hevict
    obtain ⟨⟨hcapacity, hfull⟩, hnew⟩ := hevict
    have hlength := Nat.le_antisymm (h.room hcapacity) hfull
    -- the list is not empty, so its last record can go
    obtain ⟨init, last, rfl⟩ : ∃ init last, ranked = init ++ [last] := by
      rcases List.eq_nil_or_concat ranked with rfl | ⟨init, last, rfl⟩
      · rw [← hranked.records, List.map_nil, List.length_nil] at hlength
        omega
      · exact ⟨init, last, List.concat_eq_append⟩
    have hcapacity' : cache.evict.capacity = cache.capacity := by
      rw [evict, hranked.oldest?_eq (.refl _)]
    rw [hinsert, RecencyList.insert,
      RecencyList.bounded_touch_of_full hcapacity hlength hnew]
    refine ⟨⟨_, hranked.evict.place record⟩, fun _ => ?_⟩
    have := list.dropOldest.length_touch_le record
    rw [RecencyList.records_dropOldest, List.length_dropLast] at this
    change _ ≤ cache.evict.capacity
    omega
  · have hinsert : cache.insert record = cache.place record := by
      rw [RecordCache.insert, if_neg hevict, place]
    have hroom : 0 < cache.capacity → (list.touch record).records.length ≤ cache.capacity := by
      intro hcapacity
      have hlist := h.room hcapacity
      cases hfind : list.find? record.token with
      | some other => exact Nat.le_trans (RecencyList.length_touch_of_find? hfind) hlist
      | none =>
        have hlength := list.length_touch_le record
        have hfull : ¬cache.capacity ≤ list.records.length := by
          intro hle
          refine hevict ?_
          rw [isFull, h.size_eq, h.contains_eq, hfind]
          simp [hcapacity, hle]
        omega
    rw [hinsert, RecencyList.insert, RecencyList.bounded_of_le hroom]
    exact ⟨⟨_, hranked.place record⟩, hroom⟩

end Holds

/-! ## What users see -/

/-- No call makes more or less room. -/
theorem capacity_run (call : Call) (cache : RecordCache) :
    (call.run cache).2.capacity = cache.capacity := by
  cases call with
  | contains | size | isEmpty | clear => rfl
  | get token =>
    rw [Call.run, get]
    cases cache.find? token <;> rfl
  | insert record =>
    rw [Call.run, insert, evict]
    split
    · cases oldest? cache.entries <;> rfl
    · rfl

/-- A call is at most one use. -/
theorem uses_run_le (call : Call) (cache : RecordCache) :
    (call.run cache).2.uses ≤ cache.uses + 1 := by
  cases call with
  | contains | size | isEmpty | clear => exact Nat.le_succ _
  | get token =>
    rw [Call.run, get]
    cases cache.find? token <;> exact Nat.le_refl _
  | insert record =>
    rw [Call.run, insert, evict]
    split
    · cases oldest? cache.entries <;> exact Nat.le_refl _
    · exact Nat.le_refl _

/-- **A call of a cache is one of the list that it holds.** -/
theorem holds_run {cache : RecordCache} {list : RecencyList} (h : Holds cache list)
    (call : Call) :
    (call.run cache).1 = (call.runList cache.capacity list).1 ∧
      Holds (call.run cache).2 (call.runList cache.capacity list).2 := by
  cases call with
  | get token => exact ⟨congrArg _ (h.get token).1, (h.get token).2⟩
  | contains token => exact ⟨congrArg _ (h.contains_eq token), h⟩
  | size => exact ⟨congrArg _ h.size_eq, h⟩
  | isEmpty =>
    refine ⟨congrArg Answer.truth ?_, h⟩
    rw [Bool.eq_iff_iff, isEmpty, List.isEmpty_iff_length_eq_zero,
      List.isEmpty_iff_length_eq_zero, ← h.size_eq, size]
  | insert record => exact ⟨rfl, h.insert record⟩
  | clear => exact ⟨rfl, .clear cache⟩

theorem holds_runs {cache last : RecordCache} {list : RecencyList} {calls : List Call}
    {answers : List Answer} (hruns : Runs cache calls answers last) (h : Holds cache list) :
    answers = listAnswers cache.capacity calls list ∧ last.capacity = cache.capacity ∧
      last.uses ≤ cache.uses + calls.length ∧ ∃ list, Holds last list := by
  induction hruns generalizing list with
  | nil hlast => exact ⟨rfl, hlast.capacity, Nat.le_of_eq hlast.uses, list, h.reorder hlast⟩
  | @cons cache found last call calls answers hfound hrest ih =>
    obtain ⟨hanswer, hholds⟩ := holds_run (h.reorder hfound) call
    obtain ⟨hanswers, hcapacity, huses, hlast⟩ := ih hholds
    have hstep := uses_run_le call found
    rw [capacity_run, hfound.capacity] at hanswers hcapacity
    rw [hfound.capacity] at hanswer
    rw [hfound.uses] at hstep
    refine ⟨?_, hcapacity, ?_, hlast⟩
    · rw [listAnswers, hanswers, hanswer]
    · rw [List.length_cons]
      omega

/-- What holds of a cache at any time. -/
structure Sound (cache : RecordCache) : Prop where
  /-- There are no more records than there is room for. -/
  size_le : 0 < cache.capacity → cache.size ≤ cache.capacity
  /-- A record is kept under its own token. -/
  keyed : ∀ entry ∈ cache.entries, entry.1 = entry.2.record.token
  /-- No two records were used at the same time. -/
  nodup_lastUsed : (cache.entries.map (·.2.lastUsed)).Nodup
  /-- The one to be pushed out next does not depend on the order of the
  entries. -/
  oldest?_eq : ∀ entries : List Entry, entries.Perm cache.entries →
    oldest? entries = oldest? cache.entries
  /-- None is pushed out by a record of a token that is there. -/
  insert_again : ∀ record : Record, cache.contains record.token = true →
    (cache.insert record).size = cache.size ∧
      ∀ token, (cache.insert record).contains token = cache.contains token

theorem contains_place (cache : RecordCache) (record : Record) (token : Token) :
    (cache.place record).contains token =
      (decide (record.token = token) || cache.contains token) := by
  rw [contains, contains, find?, find?, Option.isSome_map, Option.isSome_map, place,
    List.find?_cons]
  by_cases htoken : record.token = token
  · simp [htoken]
  · have hothers (entry : Entry) :
        decide (decide (entry.1 ≠ record.token) = true ∧ decide (entry.1 = token) = true) =
          decide (entry.1 = token) := by
      refine decide_eq_decide.2 ⟨fun h => of_decide_eq_true h.2, fun h => ?_⟩
      exact ⟨decide_eq_true fun h' => htoken (h'.symm.trans h), decide_eq_true h⟩
    simp only [htoken, decide_false, List.find?_filter, hothers, Bool.false_or]

/-- A cache that holds a list is sound. -/
theorem sound_of_holds {cache : RecordCache} {list : RecencyList} (h : Holds cache list) :
    Sound cache := by
  obtain ⟨ranked, hranked⟩ := h.ranking
  refine ⟨fun hcapacity => h.size_eq ▸ h.room hcapacity,
    fun entry hmem => hranked.keyed entry (hranked.perm.mem_iff.2 hmem), hranked.nodup_lastUsed,
    fun entries hperm => ?_, fun record hrecord => ?_⟩
  · rcases List.eq_nil_or_concat ranked with rfl | ⟨init, last, rfl⟩
    · rw [(hperm.trans hranked.perm.symm).eq_nil, hranked.perm.symm.eq_nil]
    · rw [List.concat_eq_append] at hranked
      rw [hranked.oldest?_eq hperm, hranked.oldest?_eq (.refl _)]
  · have hinsert : cache.insert record = cache.place record := by
      rw [insert, hrecord, Bool.not_true, Bool.and_false, if_neg (by decide), place]
    rw [hinsert]
    constructor
    · -- the entry that is replaced is the only one of its token
      obtain ⟨⟨token, stamped⟩, hentry⟩ := Option.isSome_iff_exists.1
        ((Option.isSome_map ..).symm.trans hrecord)
      obtain rfl : token = record.token := by simpa using List.find?_some hentry
      have hnodup : (cache.entries.map (·.1)).Nodup :=
        (hranked.perm.map _).nodup_iff.1 hranked.nodup
      rw [size, size, (perm_cons_filter hnodup (List.mem_of_find?_eq_some hentry)).length_eq, place,
        List.length_cons, List.length_cons]
    · intro token
      rw [contains_place]
      by_cases htoken : record.token = token
      · rw [decide_eq_true htoken, Bool.true_or, ← htoken, hrecord]
      · rw [decide_eq_false htoken, Bool.false_or]

/-- **A cache answers as a recency list.** Any calls of a new cache can be
run, and whatever the order of its entries is at any time, its answers are
those of the list, which knows of no stamps. The cache that is left is sound,
and it has counted no more uses than there were calls, so that a counter of
64 bits does for fewer than `2 ^ 64` of them. -/
theorem answers_of_runs (capacity : Nat) (calls : List Call) :
    (∃ answers last, Runs (ofCapacity capacity) calls answers last) ∧
      ∀ answers last, Runs (ofCapacity capacity) calls answers last →
        answers = listAnswers capacity calls .empty ∧ last.capacity = capacity ∧
          last.uses ≤ calls.length ∧ last.Sound := by
  refine ⟨exists_runs _ calls, fun answers last hruns => ?_⟩
  obtain ⟨hanswers, hcapacity, huses, list, hlast⟩ := holds_runs hruns (.ofCapacity capacity)
  rw [show (ofCapacity capacity).uses = 0 from rfl, Nat.zero_add] at huses
  exact ⟨hanswers, hcapacity, huses, sound_of_holds hlast⟩

/-- Of two records with room for no more, the one that was looked at is still
there after a third has come, and the other is not. -/
theorem answers_of_runs_full :
    let record (byte : UInt8) : Record := .null ⟨[byte]⟩
    let calls : List Call :=
      [.insert (record 1), .insert (record 2), .get ⟨[1]⟩, .insert (record 3), .contains ⟨[2]⟩,
        .contains ⟨[1]⟩, .size]
    ∃ last, Runs (ofCapacity 2) calls
      [.done, .done, .found (some (record 1)), .done, .truth false, .truth true, .count 2] last ∧
        last.Sound := by
  intro record calls
  obtain ⟨⟨answers, last, hruns⟩, hall⟩ := answers_of_runs 2 calls
  obtain ⟨hanswers, -, -, hsound⟩ := hall answers last hruns
  rw [hanswers] at hruns
  exact ⟨last, hruns, hsound⟩

end RecordCache

end TypedAttr
