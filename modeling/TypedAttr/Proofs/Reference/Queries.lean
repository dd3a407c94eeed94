import TypedAttr.Reference.Resolve
/-!
# Queries, step by step

What each query of a resolver does to its cache and to the backend, as one
equation per query. The backend is asked only about a token without a record.
-/

namespace TypedAttr

namespace Resolver

variable {σ : Type} (resolver : Resolver σ) (token : Token) (cache : RecordCache) (s : σ)

theorem run_resolveAndKeep :
    ((resolver.resolveAndKeep token).run cache).run s =
      let found := (resolver.lookups.resolve resolver.flavor token).run s
      ((found.1, cache.insert found.1), found.2) :=
  rfl

/-- **A record** comes from the cache, or else it is resolved and kept. -/
theorem run_record :
    ((resolver.record token).run cache).run s =
      match cache.get token with
      | (some record, used) => ((record, used), s)
      | (none, used) => ((resolver.resolveAndKeep token).run used).run s := by
  cases hget : cache.get token with
  | mk found used =>
    have hlook : ((modifyGet (·.get token) : Query σ (Option Record)).run cache).run s =
        ((found, used), s) := by
      rw [← hget]
      rfl
    rw [record, StateT.run_bind, StateT.run_bind, hlook]
    cases found <;> rfl

/-- A token without a record is resolved beforehand. -/
theorem run_init_cons (rest : List Token) :
    ((resolver.init (token :: rest)).run cache).run s =
      if cache.contains token then ((resolver.init rest).run cache).run s
      else
        let kept := ((resolver.resolveAndKeep token).run cache).run s
        ((resolver.init rest).run kept.1.2).run kept.2 := by
  change ((if !cache.contains token then resolver.resolveAndKeep token >>= fun _ =>
    resolver.init rest else resolver.init rest).run cache).run s = _
  cases cache.contains token <;> rfl

end Resolver

end TypedAttr
