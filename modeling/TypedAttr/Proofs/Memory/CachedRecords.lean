import TypedAttr.Proofs.Memory.Description
import TypedAttr.Proofs.Reference.Serving
/-!
# Records of a file that are kept

A file gives every token one record, so a resolver on it answers the same with
any cache. What its cache has room for decides only how often the file is
asked.
-/

namespace TypedAttr

namespace Memory

namespace File

/-- As long as nothing but its accounts changes, a file gives every token one
record. -/
theorem settled_lookups (file : File) (flavor : ReferenceFlavor) :
    (Resolver.mk lookups flavor).Settled (Like file []) (file.describe flavor) where
  resolve _ := yields_resolve file flavor
  token token := file.token_describe flavor token

/-- **A cache is not seen.** Whatever a resolver is asked and whatever it has
room for, its answers are those made of the records that resolvers with empty
caches have. The file is left as if some of the tokens asked about had been
resolved, one after the other; no token of zeros is among them, and with room
for all records each of the others is, once. -/
theorem answers_of_calls (file : File) (flavor : ReferenceFlavor) (capacity other : Nat)
    (calls : List Resolver.Call) :
    let resolver : Resolver File := ⟨lookups, flavor⟩
    let asked := calls.flatMap Resolver.Call.tokens
    let outcome := ((calls.mapM (Resolver.Call.run resolver)).run (.ofCapacity capacity)).run file
    outcome.1.1 =
        calls.map (Resolver.Call.answer fun token => file.firstRecord token other flavor) ∧
      ∃ resolved, outcome.2 = resolver.afterAll resolved file ∧
        (∀ token ∈ resolved, token ∈ asked ∧ token.isNull = false) ∧
        (capacity = 0 → resolved.Nodup ∧
          ∀ token ∈ asked, token.isNull = false → token ∈ resolved) := by
  intro resolver asked outcome
  have hempty : (RecordCache.ofCapacity capacity).Faithful (file.describe flavor) :=
    fun entry hmem => by cases hmem
  obtain ⟨resolved, used, hrun, hgrown, -, -⟩ :=
    Resolver.serves_calls (settled_lookups file flavor) calls _ file hempty (.refl file)
  have hrecords : (fun token => file.firstRecord token other flavor) = file.describe flavor :=
    funext fun token => firstRecord_eq file token other flavor
  refine ⟨?_, resolved, congrArg Prod.snd hrun, hgrown.about, fun hcapacity => ?_⟩
  · rw [hrecords]
    exact congrArg (·.1.1) hrun
  · refine ⟨hgrown.nodup hcapacity, fun token hasked hnull => ?_⟩
    exact (hgrown.resolved hcapacity token).2 ⟨hasked, hnull, rfl⟩

/-- Of two tokens with room for the record of one, the first is resolved again
after the second, and has the same record. A token of zeros asks nothing. -/
theorem answers_of_calls_crowded :
    let group := (ofPath "f.h5").addObject "/g" .group []
    let first := group.2.mintObject group.1
    let second := first.2.mintOther group.1
    let calls : List Resolver.Call :=
      [.record first.1, .record second.1, .regionText (.null 8), .record first.1]
    let answers := ((calls.mapM (Resolver.Call.run ⟨lookups, .standard⟩)).run
      (.ofCapacity 1)).run second.2
    answers.1.1[3]? = answers.1.1[0]? ∧ answers.2.calls = 12 := by
  intro group first second calls answers
  refine ⟨?_, by decide +kernel⟩
  rw [(answers_of_calls second.2 .standard 1 0 calls).1]
  rfl

end File

end Memory

end TypedAttr
