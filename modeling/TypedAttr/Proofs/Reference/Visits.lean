import TypedAttr.Proofs.Reference.MoreRoom
import TypedAttr.Proofs.Reference.Serving
/-!
# What is resolved, told from what is kept

A query visits tokens, one after the other. A visit finds the record that is
kept of its token, or the token is `missed` and resolved. If the backend gives
every token one record, a recency list tells which tokens are missed, and the
query resolves these and no others, in order (`Makes`). A list with more room
misses no more (`missed_sublist_of_moreRoom`).
-/

namespace TypedAttr

/-- A query comes to a token, either to use its record or to see whether there
is one. -/
structure Visit where
  token : Token
  isUse : Bool

namespace RecencyList

variable (capacity : Nat) (expected : Token → Record)

/-- The records that are kept after a visit. -/
def visit (list : RecencyList) (visit : Visit) : RecencyList :=
  match list.find? visit.token with
  | some record => if visit.isUse then list.touch record else list
  | none => list.insert capacity (expected visit.token)

/-- The records that are kept after visits, one after the other. -/
def visitAll (visits : List Visit) (list : RecencyList) : RecencyList :=
  visits.foldl (visit capacity expected) list

/-- The tokens that have no record when they are visited. -/
def missed : List Visit → RecencyList → List Token
  | [], _ => []
  | visit :: rest, list =>
    if (list.find? visit.token).isSome then missed rest (list.visit capacity expected visit)
    else visit.token :: missed rest (list.visit capacity expected visit)

variable {capacity expected} {list : RecencyList}

theorem missed_cons_of_find? {visit : Visit} {record : Record}
    (h : list.find? visit.token = some record) (rest : List Visit) :
    list.missed capacity expected (visit :: rest) =
      (list.visit capacity expected visit).missed capacity expected rest := by
  rw [missed, h, if_pos Option.isSome_some]

theorem missed_cons_of_find?_eq_none {visit : Visit} (h : list.find? visit.token = none)
    (rest : List Visit) :
    list.missed capacity expected (visit :: rest) =
      visit.token :: (list.visit capacity expected visit).missed capacity expected rest := by
  rw [missed, h, if_neg (by decide)]

theorem missed_append (visits others : List Visit) :
    list.missed capacity expected (visits ++ others) =
      list.missed capacity expected visits ++
        (list.visitAll capacity expected visits).missed capacity expected others := by
  induction visits generalizing list with
  | nil => rfl
  | cons visit rest ih =>
    rw [List.cons_append]
    cases hfind : list.find? visit.token with
    | some record =>
      rw [missed_cons_of_find? hfind, missed_cons_of_find? hfind, ih]
      rfl
    | none =>
      rw [missed_cons_of_find?_eq_none hfind, missed_cons_of_find?_eq_none hfind, ih]
      rfl

variable (capacity expected) in
/-- What is missed was visited, in the same order. -/
theorem missed_sublist (visits : List Visit) (list : RecencyList) :
    (list.missed capacity expected visits).Sublist (visits.map Visit.token) := by
  induction visits generalizing list with
  | nil => exact .slnil
  | cons visit rest ih =>
    cases hfind : list.find? visit.token with
    | some record =>
      rw [missed_cons_of_find? hfind]
      exact (ih _).cons _
    | none =>
      rw [missed_cons_of_find?_eq_none hfind]
      exact (ih _).cons_cons _

/-! ## More room -/

section MoreRoom

variable {more : Nat} {small large : RecencyList}

/-- A visit to use a record keeps the expected one, if all that are kept are
expected. -/
theorem visit_of_isUse (hlist : ∀ record ∈ list.records, record = expected record.token)
    (hroom : 0 < capacity → list.records.length ≤ capacity) {visit : Visit}
    (huse : visit.isUse = true) :
    list.visit capacity expected visit = list.insert capacity (expected visit.token) := by
  rw [RecencyList.visit]
  cases hfind : list.find? visit.token with
  | none => rfl
  | some record =>
    have hkey : record.token = visit.token := by simpa using List.find?_some hfind
    have hrecord : record = expected visit.token :=
      hkey ▸ hlist record (List.mem_of_find?_eq_some hfind)
    have hlength := length_touch_of_find?_eq (hkey.symm ▸ hfind)
    dsimp only
    rw [if_pos huse, RecencyList.insert, ← hrecord, bounded_of_le (hlength ▸ hroom)]

/-- Then all that are kept are expected again. -/
theorem eq_expected_of_mem_insert (hkey : ∀ token, (expected token).token = token)
    (hlist : ∀ record ∈ list.records, record = expected record.token) (token : Token) :
    ∀ record ∈ (list.insert capacity (expected token)).records,
      record = expected record.token := by
  intro record hmem
  have htouch : record ∈ (list.touch (expected token)).records := by
    rw [RecencyList.insert, records_bounded] at hmem
    split at hmem
    · exact hmem
    · exact List.mem_of_mem_take hmem
  rcases List.mem_cons.1 htouch with rfl | hold
  · rw [hkey]
  · exact hlist record (List.mem_filter.1 hold).1

/-- **With more room no more is missed**, if every visit is a use. -/
theorem missed_sublist_of_moreRoom (hkey : ∀ token, (expected token).token = token)
    (hmore : more = 0 ∨ 0 < capacity ∧ capacity ≤ more) {visits : List Visit}
    (huses : ∀ visit ∈ visits, visit.isUse = true) (h : Within capacity more small large)
    (hsmall : ∀ record ∈ small.records, record = expected record.token)
    (hlarge : ∀ record ∈ large.records, record = expected record.token) :
    (large.missed more expected visits).Sublist (small.missed capacity expected visits) := by
  induction visits generalizing small large with
  | nil => exact .slnil
  | cons visit rest ih =>
    have huse := huses visit List.mem_cons_self
    have hrest := ih (fun other hother => huses other (List.mem_cons_of_mem _ hother))
      (h.insert hmore (expected visit.token)) (eq_expected_of_mem_insert hkey hsmall _)
      (eq_expected_of_mem_insert hkey hlarge _)
    rw [← visit_of_isUse hsmall h.length_le huse,
      ← visit_of_isUse hlarge h.length_le_more huse] at hrest
    cases hfind : small.find? visit.token with
    | some record =>
      -- what the first list has, the second has, too
      rw [missed_cons_of_find? hfind, missed_cons_of_find? (find?_of_sublist h.sublist hfind)]
      exact hrest
    | none =>
      rw [missed_cons_of_find?_eq_none hfind]
      cases hfind' : large.find? visit.token with
      | some record =>
        rw [missed_cons_of_find? hfind']
        exact hrest.cons _
      | none =>
        rw [missed_cons_of_find?_eq_none hfind']
        exact hrest.cons_cons _

end MoreRoom

end RecencyList

/-! ## Queries by their visits -/

namespace RecordCache

theorem uses_get (cache : RecordCache) (token : Token) :
    (cache.get token).2.uses = cache.uses + 1 := by
  rw [get]
  cases cache.find? token <;> rfl

theorem uses_insert (cache : RecordCache) (record : Record) :
    (cache.insert record).uses = cache.uses + 1 := by
  rw [insert, evict]
  split
  · cases oldest? cache.entries <;> rfl
  · rfl

/-- What visits do to a cache that holds a list. -/
structure Visited (expected : Token → Record) (visits : List Visit) (list : RecencyList)
    (cache used : RecordCache) : Prop where
  capacity : used.capacity = cache.capacity
  holds : Holds used (list.visitAll cache.capacity expected visits)
  /-- Every look for a record to use is counted, and every record that is
  kept. -/
  uses : used.uses = cache.uses + visits.countP Visit.isUse +
    (list.missed cache.capacity expected visits).length

namespace Visited

variable {expected : Token → Record} {visits others : List Visit} {list : RecencyList}
variable {cache used last : RecordCache}

theorem nil (h : Holds cache list) : Visited expected [] list cache cache := ⟨rfl, h, rfl⟩

/-- A visit that finds a record. -/
theorem hit {visit : Visit} {record : Record} (hfind : list.find? visit.token = some record)
    (hcapacity : used.capacity = cache.capacity)
    (hholds : Holds used (if visit.isUse then list.touch record else list))
    (huses : used.uses = cache.uses + [visit].countP Visit.isUse) :
    Visited expected [visit] list cache used where
  capacity := hcapacity
  holds := by
    rwa [RecencyList.visitAll, List.foldl_cons, List.foldl_nil, RecencyList.visit, hfind]
  uses := by
    rw [huses, RecencyList.missed_cons_of_find? hfind]
    rfl

/-- A visit that finds none, after which there is one. -/
theorem miss {visit : Visit} (hfind : list.find? visit.token = none)
    (hcapacity : used.capacity = cache.capacity)
    (hholds : Holds used (list.insert cache.capacity (expected visit.token)))
    (huses : used.uses = cache.uses + [visit].countP Visit.isUse + 1) :
    Visited expected [visit] list cache used where
  capacity := hcapacity
  holds := by
    rwa [RecencyList.visitAll, List.foldl_cons, List.foldl_nil, RecencyList.visit, hfind]
  uses := by
    rw [huses, RecencyList.missed_cons_of_find?_eq_none hfind]
    rfl

theorem append (h : Visited expected visits list cache used)
    (hnext : Visited expected others (list.visitAll cache.capacity expected visits) used last) :
    Visited expected (visits ++ others) list cache last where
  capacity := hnext.capacity.trans h.capacity
  holds := by
    rw [RecencyList.visitAll, List.foldl_append, ← h.capacity]
    exact h.capacity ▸ hnext.holds
  uses := by
    rw [hnext.uses, h.uses, h.capacity, List.countP_append, RecencyList.missed_append,
      List.length_append]
    omega

end Visited

end RecordCache

namespace Resolver

/-- The visits of a call. -/
def Call.visits : Call → List Visit
  | .record token | .regionText token => [⟨token, true⟩]
  | .init tokens => tokens.map (⟨·, false⟩)
  | .display _ tokens => tokens.map (⟨·, true⟩)

variable {σ α γ : Type} {resolver : Resolver σ} {p : σ → Prop} {expected : Token → Record}
variable {visits others : List Visit}

/-- **A query makes visits** if it resolves the tokens that they miss, and no
others, and does to its cache what they do. -/
def Makes (resolver : Resolver σ) (p : σ → Prop) (expected : Token → Record)
    (visits : List Visit) (query : Query σ α) (good : α → Prop) : Prop :=
  ∀ cache list s, RecordCache.Holds cache list → p s →
    let resolved := list.missed cache.capacity expected visits
    ∃ a used, (query.run cache).run s = ((a, used), resolver.afterAll resolved s) ∧ good a ∧
      cache.Visited expected visits list used ∧ p (resolver.afterAll resolved s)

namespace Makes

theorem pure {good : α → Prop} {a : α} (ha : good a) :
    Makes resolver p expected [] (Pure.pure a : Query σ α) good :=
  fun cache _ _ hholds hs => ⟨a, cache, rfl, ha, .nil hholds, hs⟩

theorem bind {query : Query σ α} {next : α → Query σ γ} {good : α → Prop} {good' : γ → Prop}
    (h : Makes resolver p expected visits query good)
    (hnext : ∀ a, good a → Makes resolver p expected others (next a) good') :
    Makes resolver p expected (visits ++ others) (query >>= next) good' := by
  intro cache list s hholds hs resolved
  obtain ⟨a, used, hrun, ha, hvisited, ht⟩ := h cache list s hholds hs
  obtain ⟨c, last, hrun', hc, hvisited', hu⟩ := hnext a ha used _ _ hvisited.holds ht
  have hresolved : resolved = list.missed cache.capacity expected visits ++
      (list.visitAll cache.capacity expected visits).missed used.capacity expected others := by
    rw [hvisited.capacity]
    exact RecencyList.missed_append visits others
  refine ⟨c, last, ?_, hc, hvisited.append hvisited', ?_⟩
  · rw [StateT.run_bind, StateT.run_bind, hrun, hresolved, afterAll_append]
    exact hrun'
  · rw [hresolved, afterAll_append]
    exact hu

/-- What is made of an answer. -/
theorem map {query : Query σ α} {good : α → Prop} {good' : γ → Prop} {f : α → γ}
    (h : Makes resolver p expected visits query good) (hf : ∀ a, good a → good' (f a)) :
    Makes resolver p expected visits (query >>= fun a => Pure.pure (f a)) good' := by
  rw [← List.append_nil visits]
  exact h.bind fun a ha => pure (hf a ha)

end Makes

/-- Tokens are resolved beforehand one by one. -/
theorem init_cons (resolver : Resolver σ) (token : Token) (rest : List Token) :
    resolver.init (token :: rest) = resolver.init [token] >>= fun _ => resolver.init rest := by
  funext cache s
  have hall := run_init_cons resolver token cache s rest
  have hone := run_init_cons resolver token cache s []
  refine hall.trans (Eq.trans ?_ (congrArg (fun outcome : (Unit × RecordCache) × σ =>
    ((resolver.init rest).run outcome.1.2).run outcome.2) hone).symm)
  cases cache.contains token <;> rfl

section Settled

variable (hsettled : resolver.Settled p expected)
include hsettled

/-- A token without a record is resolved and its record kept. -/
theorem visited_resolveAndKeep {cache : RecordCache} {list : RecencyList} {s : σ}
    (hholds : RecordCache.Holds cache list) (hs : p s) (token : Token) :
    ∃ used, ((resolver.resolveAndKeep token).run cache).run s =
        ((expected token, used), resolver.afterAll [token] s) ∧
      used.Holds (list.insert cache.capacity (expected token)) ∧
      used.capacity = cache.capacity ∧ used.uses = cache.uses + 1 ∧
      p (resolver.afterAll [token] s) := by
  obtain ⟨hvalue, ht⟩ := hsettled.resolve token s hs
  have hrun := run_resolveAndKeep resolver token cache s
  dsimp only at hrun
  rw [hvalue] at hrun
  exact ⟨_, hrun, hholds.insert _, RecordCache.capacity_run (.insert _) cache,
    cache.uses_insert _, ht⟩

/-- **A record is asked for** by one visit to use it. -/
theorem makes_record (token : Token) :
    Makes resolver p expected [⟨token, true⟩] (resolver.record token) (·.token = token) := by
  intro cache list s hholds hs
  have hrun := run_record resolver token cache s
  obtain ⟨hfound, hused⟩ := hholds.get token
  have hcapacity : (cache.get token).2.capacity = cache.capacity :=
    RecordCache.capacity_run (.get token) cache
  have huses := cache.uses_get token
  cases hfind : list.find? token with
  | some record =>
    rw [RecencyList.missed_cons_of_find? hfind]
    rw [RecencyList.get, hfind] at hfound hused
    have hget : cache.get token = (some record, (cache.get token).2) := Prod.ext hfound rfl
    rw [hget] at hrun
    exact ⟨record, _, hrun, by simpa using List.find?_some hfind,
      .hit hfind hcapacity hused huses, hs⟩
  | none =>
    rw [RecencyList.missed_cons_of_find?_eq_none hfind]
    rw [RecencyList.get, hfind] at hfound hused
    have hget : cache.get token = (none, (cache.get token).2) := Prod.ext hfound rfl
    rw [hget] at hrun
    obtain ⟨used, hkeep, hinsert, hsame, hcount, ht⟩ :=
      visited_resolveAndKeep hsettled hused hs token
    have hcounts : used.uses = cache.uses + 1 + 1 := by rw [hcount, huses]
    exact ⟨_, used, hrun.trans hkeep, hsettled.token token,
      .miss hfind (hsame.trans hcapacity) (hcapacity ▸ hinsert) hcounts, ht⟩

/-- A token is seen to by one visit that uses no record. -/
theorem makes_init_singleton (token : Token) :
    Makes resolver p expected [⟨token, false⟩] (resolver.init [token]) fun _ => True := by
  intro cache list s hholds hs
  rw [run_init_cons, hholds.contains_eq]
  cases hfind : list.find? token with
  | some record =>
    rw [RecencyList.missed_cons_of_find? hfind]
    exact ⟨(), cache, rfl, trivial, .hit hfind rfl hholds rfl, hs⟩
  | none =>
    rw [RecencyList.missed_cons_of_find?_eq_none hfind]
    obtain ⟨used, hkeep, hinsert, hcapacity, hcount, ht⟩ :=
      visited_resolveAndKeep hsettled hholds hs token
    refine ⟨(), used, ?_, trivial, .miss hfind hcapacity hinsert hcount, ht⟩
    rw [if_neg (by decide), hkeep]
    rfl

/-- **Tokens are seen to** beforehand, one after the other. -/
theorem makes_init (tokens : List Token) :
    Makes resolver p expected (tokens.map (⟨·, false⟩)) (resolver.init tokens)
      fun _ => True := by
  induction tokens with
  | nil => exact .pure trivial
  | cons token rest ih =>
    rw [init_cons]
    exact (makes_init_singleton hsettled token).bind fun _ _ => ih

/-- **Records are asked for**, one after the other. -/
theorem makes_records (tokens : List Token) :
    Makes resolver p expected (tokens.map (⟨·, true⟩)) (resolver.records tokens)
      (·.map Record.token = tokens) := by
  unfold records
  induction tokens with
  | nil => exact .pure rfl
  | cons token rest ih =>
    rw [List.mapM_cons]
    refine (makes_record hsettled token).bind fun record hrecord => ih.map fun records hrest => ?_
    rw [List.map_cons, hrecord, hrest]

theorem makes_call (call : Call) :
    Makes resolver p expected call.visits (call.run resolver) fun _ => True := by
  cases call with
  | record token => exact (makes_record hsettled token).map fun _ _ => trivial
  | regionText token =>
    have htext : Makes resolver p expected [⟨token, true⟩] (resolver.regionText token)
        fun _ => True := (makes_record hsettled token).map fun _ _ => trivial
    exact htext.map fun _ _ => trivial
  | init tokens => exact (makes_init hsettled tokens).map fun _ _ => trivial
  | display limit tokens =>
    have htext : Makes resolver p expected (tokens.map (⟨·, true⟩))
        (resolver.display limit tokens) fun _ => True :=
      (makes_records hsettled tokens).map fun _ _ => trivial
    exact htext.map fun _ _ => trivial

/-- **Calls make the visits of each**, one after the other. -/
theorem makes_calls (calls : List Call) :
    Makes resolver p expected (calls.flatMap Call.visits) (calls.mapM (Call.run resolver))
      fun _ => True := by
  induction calls with
  | nil => exact .pure trivial
  | cons call rest ih =>
    rw [List.mapM_cons, List.flatMap_cons]
    exact (makes_call hsettled call).bind fun answer _ => ih.map fun _ _ => trivial

end Settled

end Resolver

end TypedAttr
