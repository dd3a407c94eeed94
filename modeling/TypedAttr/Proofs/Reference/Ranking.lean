import TypedAttr.Proofs.Reference.RecencyList
import TypedAttr.Reference.RecordCache
/-!
# The entries of a record cache, by their last use

A cache has at most one entry for a token, so that it does not matter in
which order they are looked through. Put into the order of their last uses
(`Ranking`), they are a recency list: a record that is placed comes to the
front, and the one that is pushed out is the last.
-/

namespace TypedAttr

namespace RecordCache

/-! ## Entries by token -/

/-- A record with its stamp, by its token. -/
abbrev Entry := Token × StampedRecord

section Entries

variable {entries others : List Entry} {entry : Entry}

/-- The only entry of a token is the one that is found. -/
theorem find?_of_mem (hnodup : (entries.map (·.1)).Nodup) (hmem : entry ∈ entries) :
    entries.find? (·.1 = entry.1) = some entry := by
  induction entries with
  | nil => cases hmem
  | cons head rest ih =>
    rw [List.map_cons, List.nodup_cons] at hnodup
    rcases List.mem_cons.1 hmem with rfl | hrest
    · simp
    · have hne : head.1 ≠ entry.1 := fun h => hnodup.1 (h ▸ List.mem_map_of_mem hrest)
      rw [List.find?_cons_of_neg (by simpa using hne)]
      exact ih hnodup.2 hrest

/-- So the order of entries does not matter. -/
theorem find?_of_perm (hperm : entries.Perm others) (hnodup : (entries.map (·.1)).Nodup)
    (token : Token) : others.find? (·.1 = token) = entries.find? (·.1 = token) := by
  cases hfind : entries.find? (·.1 = token) with
  | none =>
    rw [List.find?_eq_none] at hfind ⊢
    exact fun entry hmem => hfind entry (hperm.mem_iff.2 hmem)
  | some entry =>
    obtain rfl : entry.1 = token := by simpa using List.find?_some hfind
    exact find?_of_mem ((hperm.map _).nodup_iff.1 hnodup)
      (hperm.mem_iff.1 (List.mem_of_find?_eq_some hfind))

/-- One entry can be told from those of other tokens. -/
theorem perm_cons_filter (hnodup : (entries.map (·.1)).Nodup) (hmem : entry ∈ entries) :
    entries.Perm (entry :: entries.filter (·.1 ≠ entry.1)) := by
  induction entries with
  | nil => cases hmem
  | cons head rest ih =>
    rw [List.map_cons, List.nodup_cons] at hnodup
    rcases List.mem_cons.1 hmem with rfl | hrest
    · have hothers : rest.filter (·.1 ≠ entry.1) = rest := by
        refine List.filter_eq_self.2 fun other hother => decide_eq_true fun h => ?_
        exact hnodup.1 (h ▸ List.mem_map_of_mem hother)
      rw [List.filter_cons_of_neg (by simp), hothers]
    · have hne : head.1 ≠ entry.1 := fun h => hnodup.1 (h ▸ List.mem_map_of_mem hrest)
      rw [List.filter_cons_of_pos (by simpa using hne)]
      exact ((ih hnodup.2 hrest).cons head).trans (.swap _ _ _)

/-- The oldest entry is one of them, and none was used before it. -/
theorem mem_and_le_of_oldest? (h : oldest? entries = some entry) :
    entry ∈ entries ∧ ∀ other ∈ entries, entry.2.lastUsed ≤ other.2.lastUsed := by
  induction entries generalizing entry with
  | nil => cases h
  | cons head rest ih =>
    rw [oldest?] at h
    cases hrest : oldest? rest with
    | none =>
      rw [hrest] at h
      cases h
      have hnil : rest = [] := by
        cases rest with
        | nil => rfl
        | cons next tail =>
          rw [oldest?] at hrest
          split at hrest
          · cases hrest
          · split at hrest <;> cases hrest
      subst hnil
      exact ⟨List.mem_cons_self, by simp⟩
    | some other =>
      obtain ⟨hmem, hle⟩ := ih hrest
      rw [hrest] at h
      dsimp only at h
      split at h
      · cases h
        refine ⟨List.mem_cons_of_mem _ hmem, fun x hx => ?_⟩
        rcases List.mem_cons.1 hx with rfl | hx
        · omega
        · exact hle x hx
      · cases h
        refine ⟨List.mem_cons_self, fun x hx => ?_⟩
        rcases List.mem_cons.1 hx with rfl | hx
        · exact Nat.le_refl _
        · have := hle x hx
          omega

theorem oldest?_ne_none (h : entry ∈ entries) : oldest? entries ≠ none := by
  cases entries with
  | nil => cases h
  | cons head rest =>
    rw [oldest?]
    split
    · exact Option.some_ne_none _
    · split <;> exact Option.some_ne_none _

end Entries

/-! ## The order of last uses -/

/-- A cache with the same entries in another order. -/
structure Reordered (cache other : RecordCache) : Prop where
  capacity : other.capacity = cache.capacity
  uses : other.uses = cache.uses
  entries : other.entries.Perm cache.entries

theorem Reordered.refl (cache : RecordCache) : Reordered cache cache := ⟨rfl, rfl, .refl _⟩

/-- The entries of a cache in the order of their last uses, the last one in
front: they are the records of a list. -/
structure Ranking (cache : RecordCache) (list : RecencyList) (ranked : List Entry) : Prop where
  perm : ranked.Perm cache.entries
  records : ranked.map (·.2.record) = list.records
  keyed : ∀ entry ∈ ranked, entry.1 = entry.2.record.token
  falling : ranked.Pairwise fun entry older => older.2.lastUsed < entry.2.lastUsed
  counted : ∀ entry ∈ ranked, entry.2.lastUsed ≤ cache.uses

/-- The cache with a record in place of any other of its token, used now. -/
def place (record : Record) (cache : RecordCache) : RecordCache :=
  { cache with
    entries := (record.token, ⟨record, cache.uses + 1⟩) ::
      cache.entries.filter (·.1 ≠ record.token)
    uses := cache.uses + 1 }

namespace Ranking

variable {cache other : RecordCache} {list : RecencyList} {ranked : List Entry}

theorem map_token (h : Ranking cache list ranked) :
    ranked.map (·.1) = list.records.map Record.token := by
  rw [← h.records, List.map_map]
  exact List.map_congr_left h.keyed

theorem nodup (h : Ranking cache list ranked) : (ranked.map (·.1)).Nodup :=
  h.map_token ▸ list.nodup

/-- No two entries were used at the same time. -/
theorem nodup_lastUsed (h : Ranking cache list ranked) :
    (cache.entries.map (·.2.lastUsed)).Nodup := by
  refine (h.perm.map _).nodup_iff.1 ?_
  rw [List.Nodup, List.pairwise_map]
  exact h.falling.imp fun hlt => (Nat.ne_of_lt hlt).symm

theorem reorder (h : Ranking cache list ranked) (hother : Reordered cache other) :
    Ranking other list ranked :=
  { h with
    perm := h.perm.trans hother.entries.symm
    counted := hother.uses ▸ h.counted }

/-- The count of uses may grow without a use of any record. -/
theorem tick (h : Ranking cache list ranked) :
    Ranking { cache with uses := cache.uses + 1 } list ranked :=
  { h with counted := fun entry hmem => Nat.le_succ_of_le (h.counted entry hmem) }

theorem find?_eq (h : Ranking cache list ranked) (token : Token) :
    cache.find? token = (ranked.find? (·.1 = token)).map (·.2) := by
  rw [RecordCache.find?, find?_of_perm h.perm h.nodup]

/-- The list has the record of a token that the cache has. -/
theorem find?_list (h : Ranking cache list ranked) (token : Token) :
    list.find? token = (cache.find? token).map (·.record) := by
  have hkey : ranked.find? (fun entry => entry.2.record.token = token) =
      ranked.find? (fun entry => entry.1 = token) := by
    have hkeyed := h.keyed
    clear h
    induction ranked with
    | nil => rfl
    | cons head rest ih =>
      rw [List.find?_cons, List.find?_cons, hkeyed head List.mem_cons_self,
        ih fun entry hmem => hkeyed entry (List.mem_cons_of_mem _ hmem)]
  rw [h.find?_eq, RecencyList.find?, ← h.records, List.find?_map, Option.map_map]
  exact congrArg _ hkey

/-- Any order of the entries has one oldest entry, the last of the ranking. -/
theorem oldest?_eq {init : List Entry} {last : Entry} (h : Ranking cache list (init ++ [last]))
    {entries : List Entry} (hperm : entries.Perm cache.entries) :
    oldest? entries = some last := by
  have hsame : entries.Perm (init ++ [last]) := hperm.trans h.perm.symm
  have hlast : last ∈ entries := hsame.mem_iff.2 (by simp)
  cases holdest : oldest? entries with
  | none => exact absurd holdest (oldest?_ne_none hlast)
  | some entry =>
    obtain ⟨hmem, hle⟩ := mem_and_le_of_oldest? holdest
    -- an entry further to the front was used later than the last one
    rcases List.mem_append.1 (hsame.mem_iff.1 hmem) with hinit | hlast'
    · have hlt := (List.pairwise_append.1 h.falling).2.2 entry hinit last (by simp)
      have := hle last hlast
      omega
    · rw [List.mem_singleton.1 hlast']

/-- To push an entry out is to drop the oldest record. -/
theorem evict {init : List Entry} {last : Entry} (h : Ranking cache list (init ++ [last])) :
    Ranking cache.evict list.dropOldest init := by
  have hevict : cache.evict =
      { cache with entries := cache.entries.filter (·.1 ≠ last.1) } := by
    rw [RecordCache.evict, h.oldest?_eq (.refl _)]
  have hinit : (init ++ [last]).filter (·.1 ≠ last.1) = init := by
    have hnodup := h.nodup
    rw [List.map_append, List.nodup_append] at hnodup
    rw [List.filter_append, List.filter_cons_of_neg (by simp), List.filter_nil, List.append_nil,
      List.filter_eq_self]
    intro entry hmem
    exact decide_eq_true (hnodup.2.2 _ (List.mem_map_of_mem hmem) _ (by simp))
  have hmem {entry : Entry} (hentry : entry ∈ init) : entry ∈ init ++ [last] :=
    List.mem_append_left _ hentry
  rw [hevict]
  constructor
  · rw [← hinit]
    exact h.perm.filter _
  · rw [RecencyList.records_dropOldest, ← h.records, List.map_append, List.map_singleton,
      List.dropLast_concat]
  · exact fun entry hentry => h.keyed entry (hmem hentry)
  · exact (List.pairwise_append.1 h.falling).1
  · exact fun entry hentry => h.counted entry (hmem hentry)

/-- To keep a record is to touch it. -/
theorem place (h : Ranking cache list ranked) (record : Record) :
    Ranking (cache.place record) (list.touch record)
      ((record.token, ⟨record, cache.uses + 1⟩) :: ranked.filter (·.1 ≠ record.token)) := by
  have hmem {entry : Entry} (hentry : entry ∈ ranked.filter (·.1 ≠ record.token)) :
      entry ∈ ranked := (List.mem_filter.1 hentry).1
  constructor
  · exact (h.perm.filter _).cons _
  · have hothers : ranked.filter (fun entry => entry.1 ≠ record.token) =
        ranked.filter (fun entry => entry.2.record.token ≠ record.token) :=
      List.filter_congr fun entry hentry => by rw [h.keyed entry hentry]
    rw [RecencyList.records_touch, ← h.records, List.filter_map, List.map_cons, hothers]
    rfl
  · intro entry hentry
    rcases List.mem_cons.1 hentry with rfl | hentry
    · rfl
    · exact h.keyed entry (hmem hentry)
  · refine List.pairwise_cons.2 ⟨fun entry hentry => ?_, h.falling.filter _⟩
    exact Nat.lt_succ_of_le (h.counted entry (hmem hentry))
  · intro entry hentry
    rcases List.mem_cons.1 hentry with rfl | hentry
    · exact Nat.le_refl _
    · exact Nat.le_succ_of_le (h.counted entry (hmem hentry))

/-- A record that is found is placed as if it were new, up to the order of
the entries. -/
theorem reordered_get (h : Ranking cache list ranked) {token : Token} {stamped : StampedRecord}
    (hfind : cache.find? token = some stamped) :
    stamped.record.token = token ∧ (cache.get token).1 = some stamped.record ∧
      Reordered (cache.place stamped.record) (cache.get token).2 := by
  have hfound : cache.entries.find? (·.1 = token) = some (token, stamped) := by
    obtain ⟨⟨key, _⟩, hentry, rfl⟩ := Option.map_eq_some_iff.1 hfind
    obtain rfl : key = token := by simpa using List.find?_some hentry
    exact hentry
  have hmem := List.mem_of_find?_eq_some hfound
  have htoken : token = stamped.record.token := h.keyed _ (h.perm.mem_iff.2 hmem)
  have hnodup : (cache.entries.map (·.1)).Nodup := (h.perm.map _).nodup_iff.1 h.nodup
  refine ⟨htoken.symm, by rw [RecordCache.get, hfind], ?_⟩
  rw [RecordCache.get, hfind]
  refine ⟨rfl, rfl, ((perm_cons_filter hnodup hmem).map _).trans ?_⟩
  -- the stamp of one entry is changed, and no other
  rw [List.map_cons, if_pos rfl, RecordCache.place, ← htoken]
  refine .of_eq (congrArg _ ?_)
  refine (List.map_congr_left fun entry hentry => ?_).trans (List.map_id _)
  exact if_neg (of_decide_eq_true (List.mem_filter.1 hentry).2)

end Ranking

end RecordCache

end TypedAttr
