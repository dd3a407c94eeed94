import TypedAttr.Proofs.Backend.Keeps
import TypedAttr.Proofs.Reference.Queries
import TypedAttr.Proofs.Reference.Recency
/-!
# Records from a cache

If resolving a token always gives the same record, a resolver with a cache
gives that record, too, whatever was asked before and whatever was pushed
out. A query `Serves` an answer if it gives it from any cache of such records,
and the backend is left as if some of the tokens had been resolved, one after
the other. A cache with room for all records is never asked to resolve a token
twice.
-/

namespace TypedAttr

/-! ## Caches of faithful records -/

namespace RecordCache

variable {expected : Token → Record} {cache : RecordCache} {token : Token}

/-- Every record is the one that its token is expected to have. -/
def Faithful (expected : Token → Record) (cache : RecordCache) : Prop :=
  ∀ entry ∈ cache.entries, entry.2.record = expected entry.1

/-- What is found is what is expected. -/
theorem Faithful.find? (h : cache.Faithful expected) {stamped : StampedRecord}
    (hfind : cache.find? token = some stamped) : stamped.record = expected token := by
  obtain ⟨⟨key, _⟩, hentry, rfl⟩ := Option.map_eq_some_iff.1 hfind
  obtain rfl : key = token := by simpa using List.find?_some hentry
  exact h _ (List.mem_of_find?_eq_some hentry)

theorem contains_iff : cache.contains token = true ↔ token ∈ cache.entries.map (·.1) := by
  rw [contains, RecordCache.find?, Option.isSome_map, List.find?_isSome, List.mem_map]
  exact exists_congr fun entry => and_congr_right fun _ => decide_eq_true_iff

/-- A look at a record changes its stamp only. -/
theorem contains_get (cache : RecordCache) (token other : Token) :
    (cache.get token).2.contains other = cache.contains other := by
  have htokens : (cache.get token).2.entries.map (·.1) = cache.entries.map (·.1) := by
    rw [get]
    cases cache.find? token with
    | none => rfl
    | some stamped =>
      rw [List.map_map]
      refine List.map_congr_left fun entry _ => ?_
      dsimp only [Function.comp]
      split <;> rfl
  rw [Bool.eq_iff_iff, contains_iff, contains_iff, htokens]

theorem Faithful.get (h : cache.Faithful expected) (token : Token) :
    (cache.get token).2.Faithful expected := by
  rw [RecordCache.get]
  cases cache.find? token with
  | none => exact h
  | some stamped =>
    intro entry hmem
    obtain ⟨old, hold, rfl⟩ := List.mem_map.1 hmem
    dsimp only
    split
    · exact h old hold
    · exact h old hold

theorem Faithful.evict (h : cache.Faithful expected) : cache.evict.Faithful expected := by
  rw [RecordCache.evict]
  cases oldest? cache.entries with
  | none => exact h
  | some entry => exact fun other hmem => h other (List.mem_filter.1 hmem).1

/-- A record may be kept under its own token. -/
theorem Faithful.insert (h : cache.Faithful expected) {record : Record}
    (hrecord : record = expected record.token) : (cache.insert record).Faithful expected := by
  have hroomy : (if cache.isFull && !cache.contains record.token then cache.evict
      else cache).Faithful expected := by
    split
    · exact h.evict
    · exact h
  rw [RecordCache.insert]
  intro entry hmem
  rcases List.mem_cons.1 hmem with rfl | hmem
  · exact hrecord
  · exact hroomy entry (List.mem_filter.1 hmem).1

/-- A cache without a limit keeps what it has. -/
theorem contains_insert_of_unbounded (h : cache.capacity = 0) (record : Record) (token : Token) :
    (cache.insert record).contains token =
      (decide (record.token = token) || cache.contains token) := by
  have hfull : cache.isFull = false := by
    rw [isFull, h]
    rfl
  have hinsert : cache.insert record = cache.place record := by
    rw [insert, hfull, Bool.false_and, if_neg (by decide), place]
  rw [hinsert, contains_place]

end RecordCache

/-! ## Queries that serve -/

namespace Resolver

variable {σ α γ : Type} (resolver : Resolver σ) (p : σ → Prop) (expected : Token → Record)

/-- The state after tokens were resolved, one after the other. -/
def afterAll (resolver : Resolver σ) (tokens : List Token) (s : σ) : σ :=
  tokens.foldl (fun s token => ((resolver.lookups.resolve resolver.flavor token).run s).2) s

theorem afterAll_append (tokens others : List Token) (s : σ) :
    resolver.afterAll (tokens ++ others) s =
      resolver.afterAll others (resolver.afterAll tokens s) :=
  List.foldl_append

/-- What a query does to its cache, by the tokens it was about and those that
were resolved. -/
structure Grown (asked resolved : List Token) (cache used : RecordCache) : Prop where
  capacity : used.capacity = cache.capacity
  /-- Only what is asked about is resolved, and never a token of zeros. -/
  about : ∀ token ∈ resolved, token ∈ asked ∧ token.isNull = false
  /-- Without a limit all of it is kept. -/
  contains : cache.capacity = 0 → ∀ token,
    used.contains token = true ↔ cache.contains token = true ∨ token ∈ asked
  /-- And so what is not there yet is resolved once. -/
  nodup : cache.capacity = 0 → resolved.Nodup
  resolved : cache.capacity = 0 → ∀ token,
    token ∈ resolved ↔ token ∈ asked ∧ token.isNull = false ∧ cache.contains token = false

theorem Grown.refl (cache : RecordCache) : Grown [] [] cache cache where
  capacity := rfl
  about _ h := by cases h
  contains _ token := by simp
  nodup _ := .nil
  resolved _ token := by simp

/-- A token with a record is not resolved. -/
theorem Grown.of_contains {cache used : RecordCache} {token : Token}
    (hthere : cache.contains token = true) (hcapacity : used.capacity = cache.capacity)
    (hsame : ∀ other, used.contains other = cache.contains other) :
    Grown [token] [] cache used where
  capacity := hcapacity
  about _ h := by cases h
  contains _ other := by
    rw [hsame, List.mem_singleton]
    exact ⟨.inl, fun h => h.elim id fun h => h ▸ hthere⟩
  nodup _ := .nil
  resolved _ other := by
    simp only [List.not_mem_nil, List.mem_singleton, false_iff, not_and]
    rintro rfl _ hnew
    exact absurd (hthere.symm.trans hnew) (by decide)

theorem Grown.trans {asked asked' resolved resolved' : List Token}
    {cache used last : RecordCache} (h : Grown asked resolved cache used)
    (hnext : Grown asked' resolved' used last) :
    Grown (asked ++ asked') (resolved ++ resolved') cache last where
  capacity := hnext.capacity.trans h.capacity
  about token hmem := by
    rcases List.mem_append.1 hmem with hmem | hmem
    · exact ⟨List.mem_append_left _ (h.about token hmem).1, (h.about token hmem).2⟩
    · exact ⟨List.mem_append_right _ (hnext.about token hmem).1, (hnext.about token hmem).2⟩
  contains hcapacity token := by
    rw [hnext.contains (h.capacity.trans hcapacity), h.contains hcapacity, List.mem_append,
      or_assoc]
  nodup hcapacity := by
    refine List.nodup_append.2 ⟨h.nodup hcapacity, hnext.nodup (h.capacity.trans hcapacity), ?_⟩
    rintro token hmem _ hmem' rfl
    -- what was resolved before is there by then
    have hthere := (h.contains hcapacity token).2 (.inr (h.about token hmem).1)
    have hnew := ((hnext.resolved (h.capacity.trans hcapacity) token).1 hmem').2.2
    exact absurd (hthere.symm.trans hnew) (by decide)
  resolved hcapacity token := by
    have hthere := h.contains hcapacity token
    rw [List.mem_append, List.mem_append, h.resolved hcapacity,
      hnext.resolved (h.capacity.trans hcapacity)]
    by_cases hasked : token ∈ asked
    · simp [hthere.2 (.inr hasked), hasked]
    · simp [hasked] at hthere ⊢
      intro _
      simp [hthere]

/-- A backend that gives every token one record, whatever was resolved
before. -/
structure Settled (resolver : Resolver σ) (p : σ → Prop) (expected : Token → Record) : Prop where
  resolve (token : Token) :
    Yields p p (resolver.lookups.resolve resolver.flavor token) (expected token)
  token (token : Token) : (expected token).token = token

/-- **A query serves an answer** if it gives it from any faithful cache, and
what is left of the backend comes from tokens that it was about. -/
def Serves (asked : List Token) (query : Query σ α) (a : α) : Prop :=
  ∀ cache s, cache.Faithful expected → p s → ∃ resolved used,
    (query.run cache).run s = ((a, used), resolver.afterAll resolved s) ∧
      Grown asked resolved cache used ∧ used.Faithful expected ∧
        p (resolver.afterAll resolved s)

namespace Serves

variable {resolver p expected} {asked asked' : List Token}

theorem pure (a : α) : Serves resolver p expected [] (Pure.pure a : Query σ α) a :=
  fun cache _ hcache hs => ⟨[], cache, rfl, .refl cache, hcache, hs⟩

theorem bind {query : Query σ α} {next : α → Query σ γ} {a : α} {c : γ}
    (h : Serves resolver p expected asked query a)
    (hnext : Serves resolver p expected asked' (next a) c) :
    Serves resolver p expected (asked ++ asked') (query >>= next) c := by
  intro cache s hcache hs
  obtain ⟨resolved, used, hrun, hgrown, hused, ht⟩ := h cache s hcache hs
  obtain ⟨resolved', last, hrun', hgrown', hlast, hu⟩ := hnext used _ hused ht
  refine ⟨resolved ++ resolved', last, ?_, hgrown.trans hgrown', hlast, ?_⟩
  · rw [StateT.run_bind, StateT.run_bind, hrun, afterAll_append]
    exact hrun'
  · rw [afterAll_append]
    exact hu

/-- What is made of an answer is served with it. -/
theorem map {query : Query σ α} {a : α} (h : Serves resolver p expected asked query a)
    (f : α → γ) : Serves resolver p expected asked (query >>= fun a => Pure.pure (f a)) (f a) := by
  rw [← List.append_nil asked]
  exact h.bind (pure (f a))

theorem mapM {f : α → Query σ γ} {g : α → γ} {about : α → List Token}
    (h : ∀ a, Serves resolver p expected (about a) (f a) (g a)) (items : List α) :
    Serves resolver p expected (items.flatMap about) (items.mapM f) (items.map g) := by
  induction items with
  | nil => exact pure []
  | cons a rest ih =>
    rw [List.mapM_cons, List.flatMap_cons, List.map_cons]
    exact (h a).bind (ih.map (g a :: ·))

end Serves

section Settled

variable {resolver p expected} (hsettled : resolver.Settled p expected)
include hsettled

/-- A token without a record is resolved, unless it is all zeros, and kept. -/
theorem serves_resolveAndKeep {cache : RecordCache} {s : σ} {token : Token}
    (hcache : cache.Faithful expected) (hs : p s) (hnew : cache.contains token = false) :
    ∃ resolved used, ((resolver.resolveAndKeep token).run cache).run s =
        ((expected token, used), resolver.afterAll resolved s) ∧
      Grown [token] resolved cache used ∧ used.Faithful expected ∧
        p (resolver.afterAll resolved s) := by
  obtain ⟨hvalue, ht⟩ := hsettled.resolve token s hs
  have hkey := hsettled.token token
  have hcontains (hcapacity : cache.capacity = 0) (other : Token) :
      (cache.insert (expected token)).contains other = true ↔
        cache.contains other = true ∨ other ∈ [token] := by
    rw [RecordCache.contains_insert_of_unbounded hcapacity, hkey, Bool.or_eq_true,
      decide_eq_true_iff, List.mem_singleton]
    exact ⟨fun h => h.symm.imp id Eq.symm, fun h => h.symm.imp Eq.symm id⟩
  have hfaithful : (cache.insert (expected token)).Faithful expected :=
    hcache.insert (congrArg expected hkey.symm)
  have hcapacity : (cache.insert (expected token)).capacity = cache.capacity :=
    RecordCache.capacity_run (.insert (expected token)) cache
  have hrun := run_resolveAndKeep resolver token cache s
  dsimp only at hrun
  rw [hvalue] at hrun
  cases hnull : token.isNull with
  | true =>
    -- a token of zeros is resolved without the backend
    have hafter : ((resolver.lookups.resolve resolver.flavor token).run s).2 = s := by
      rw [ReferenceLookups.resolve, if_pos hnull]
      rfl
    rw [hafter] at hrun
    refine ⟨[], _, hrun, ⟨hcapacity, by simp, hcontains, fun _ => .nil, fun _ other => ?_⟩,
      hfaithful, hs⟩
    simp only [List.not_mem_nil, List.mem_singleton, false_iff, not_and]
    rintro rfl hnull'
    exact absurd (hnull.symm.trans hnull') (by decide)
  | false =>
    refine ⟨[token], _, hrun, ⟨hcapacity, ?_, hcontains, fun _ => by simp, fun _ other => ?_⟩,
      hfaithful, ht⟩
    · intro other hother
      exact ⟨hother, List.mem_singleton.1 hother ▸ hnull⟩
    · rw [List.mem_singleton]
      constructor
      · rintro rfl
        exact ⟨rfl, hnull, hnew⟩
      · exact And.left

/-- **A record** is the expected one, from the cache or not. -/
theorem serves_record (token : Token) :
    Serves resolver p expected [token] (resolver.record token) (expected token) := by
  intro cache s hcache hs
  have hrun := run_record resolver token cache s
  have hfaithful := hcache.get token
  have hsame := cache.contains_get token
  have hcapacity : (cache.get token).2.capacity = cache.capacity :=
    RecordCache.capacity_run (.get token) cache
  cases hfind : cache.find? token with
  | some stamped =>
    have hget : cache.get token = (some (expected token), (cache.get token).2) := by
      rw [RecordCache.get, hfind, ← hcache.find? hfind]
    rw [hget] at hrun
    have hthere : cache.contains token = true := by
      rw [RecordCache.contains, hfind]
      rfl
    exact ⟨[], _, hrun, .of_contains hthere hcapacity hsame, hfaithful, hs⟩
  | none =>
    have hget : cache.get token = (none, (cache.get token).2) := by
      rw [RecordCache.get, hfind]
    rw [hget] at hrun
    have hnew : (cache.get token).2.contains token = false := by
      rw [hsame, RecordCache.contains, hfind]
      rfl
    obtain ⟨resolved, used, hkeep, hgrown, hused, ht⟩ :=
      serves_resolveAndKeep hsettled hfaithful hs hnew
    refine ⟨resolved, used, hrun.trans hkeep, ?_, hused, ht⟩
    -- the look has changed neither what is there nor how much there is room for
    refine ⟨hgrown.capacity.trans hcapacity, hgrown.about, ?_, ?_, ?_⟩
    · intro h other
      rw [hgrown.contains (hcapacity.trans h), hsame]
    · exact fun h => hgrown.nodup (hcapacity.trans h)
    · intro h other
      rw [hgrown.resolved (hcapacity.trans h), hsame]

theorem serves_regionText (token : Token) :
    Serves resolver p expected [token] (resolver.regionText token)
      (expected token).regionText :=
  (serves_record hsettled token).map Record.regionText

theorem serves_init (tokens : List Token) :
    Serves resolver p expected tokens (resolver.init tokens) () := by
  induction tokens with
  | nil => exact .pure ()
  | cons token rest ih =>
    intro cache s hcache hs
    rw [run_init_cons]
    cases hcontains : cache.contains token with
    | true =>
      obtain ⟨resolved, used, hrun, hgrown, hrest⟩ := ih cache s hcache hs
      have hskip : Grown [token] [] cache cache := .of_contains hcontains rfl fun _ => rfl
      exact ⟨resolved, used, hrun, hskip.trans hgrown, hrest⟩
    | false =>
      obtain ⟨resolved, used, hrun, hgrown, hused, ht⟩ :=
        serves_resolveAndKeep hsettled hcache hs hcontains
      obtain ⟨resolved', last, hrun', hgrown', hlast, hu⟩ := ih used _ hused ht
      refine ⟨resolved ++ resolved', last, ?_, hgrown.trans hgrown', hlast, ?_⟩
      · rw [if_neg (by decide), hrun, afterAll_append]
        exact hrun'
      · rw [afterAll_append]
        exact hu

theorem serves_records (tokens : List Token) :
    Serves resolver p expected tokens (resolver.records tokens) (tokens.map expected) := by
  have h := Serves.mapM (serves_record hsettled) tokens
  rwa [List.flatMap_singleton'] at h

/-- **A text of tokens** is made of the expected records. -/
theorem serves_display (limit : Nat) (tokens : List Token) :
    Serves resolver p expected tokens (resolver.display limit tokens)
      (", ".intercalate (tokens.map fun token => cut limit (expected token).referenceRegion)) := by
  have h := (serves_records hsettled tokens).map fun records =>
    ", ".intercalate (records.map fun record => cut limit record.referenceRegion)
  rwa [List.map_map] at h

end Settled

/-! ## Calls -/

/-- What a user asks of a resolver. -/
inductive Call where
  | record (token : Token)
  | regionText (token : Token)
  | init (tokens : List Token)
  | display (limit : Nat) (tokens : List Token)

/-- What a user is told. -/
inductive Answer where
  | record (record : Record)
  | text (text : String)
  | done
  deriving DecidableEq

namespace Call

/-- The tokens that a call is about. -/
def tokens : Call → List Token
  | .record token | .regionText token => [token]
  | .init tokens | .display _ tokens => tokens

/-- A call of a resolver. -/
def run (resolver : Resolver σ) : Call → Query σ Answer
  | .record token => do return .record (← resolver.record token)
  | .regionText token => do return .text (← resolver.regionText token)
  | .init tokens => do
    resolver.init tokens
    return .done
  | .display limit tokens => do return .text (← resolver.display limit tokens)

/-- What is to be answered, if the records of tokens are known. -/
def answer (expected : Token → Record) : Call → Answer
  | .record token => .record (expected token)
  | .regionText token => .text (expected token).regionText
  | .init _ => .done
  | .display limit tokens =>
    let texts := tokens.map fun token => (expected token).referenceRegion
    let shown := texts.map fun text =>
      if 0 < limit then String.ofList (text.toList.take limit) else text
    .text (", ".intercalate shown)

end Call

variable {resolver p expected}

theorem serves_call (hsettled : resolver.Settled p expected) (call : Call) :
    Serves resolver p expected call.tokens (call.run resolver) (call.answer expected) := by
  cases call with
  | record token => exact (serves_record hsettled token).map _
  | regionText token => exact (serves_regionText hsettled token).map _
  | init tokens => exact (serves_init hsettled tokens).map fun _ => Answer.done
  | display limit tokens =>
    have hcut (text : String) :
        (if 0 < limit then String.ofList (text.toList.take limit) else text) =
          cut limit text := by
      rw [cut]
      by_cases hlimit : limit = 0
      · rw [if_neg (by omega), if_pos hlimit]
      · rw [if_pos (by omega), if_neg hlimit]
    have hanswer : Call.answer expected (.display limit tokens) = .text (", ".intercalate
        (tokens.map fun token => cut limit (expected token).referenceRegion)) := by
      simp only [Call.answer, List.map_map, Function.comp_def, hcut]
    rw [hanswer]
    exact (serves_display hsettled limit tokens).map Answer.text

/-- **Calls are answered from the expected records**, one after the other. -/
theorem serves_calls (hsettled : resolver.Settled p expected) (calls : List Call) :
    Serves resolver p expected (calls.flatMap Call.tokens) (calls.mapM (Call.run resolver))
      (calls.map (Call.answer expected)) :=
  .mapM (serves_call hsettled) calls

end Resolver

end TypedAttr
