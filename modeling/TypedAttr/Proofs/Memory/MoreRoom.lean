import TypedAttr.Proofs.Memory.CachedRecords
import TypedAttr.Proofs.Reference.Noting
import TypedAttr.Proofs.Reference.Visits
/-!
# A file is asked less with more room

Queries that look up each record to use it leave a cache with what the last
of them were about. One with more room holds all of that, so a resolver that
has it misses no token that the other does not (`inclusion_of_moreRoom`).
-/

namespace TypedAttr

namespace Resolver

variable {σ : Type} {resolver : Resolver σ} {p : σ → Prop} {expected : Token → Record}

/-- **The tokens that calls resolve**, all zeros included, if the cache is
empty at first. -/
structure Resolutions (resolver : Resolver σ) (capacity : Nat) (calls : List Call) (s : σ)
    (missed : List Token) : Prop where
  /-- Every token that is asked for is looked up, and every one that is
  resolved is kept. -/
  uses : ((calls.mapM (Call.run resolver)).run (.ofCapacity capacity) |>.run s).1.2.uses =
    (calls.flatMap Call.tokens).length + missed.length
  /-- What is resolved is asked about, unless it is all zeros. -/
  noted : ((calls.mapM (Call.run resolver.noting)).run (.ofCapacity capacity) |>.run (s, [])).2.2 =
    missed.filter (!·.isNull)
  /-- The backend is left as if that had been done without a cache. -/
  after : ((calls.mapM (Call.run resolver)).run (.ofCapacity capacity) |>.run s).2 =
    resolver.afterAll missed s

/-- Calls that use every record that they come to. -/
def Call.looksUp : Call → Bool
  | .init _ => false
  | .record _ | .regionText _ | .display _ _ => true

theorem isUse_of_looksUp {call : Call} (h : call.looksUp = true) :
    ∀ visit ∈ call.visits, visit.isUse = true := by
  cases call with
  | record | regionText =>
    intro visit hvisit
    rw [List.mem_singleton.1 hvisit]
  | init => cases h
  | display =>
    intro visit hvisit
    obtain ⟨token, -, rfl⟩ := List.mem_map.1 hvisit
    rfl

theorem countP_visits {calls : List Call} (h : ∀ call ∈ calls, call.looksUp = true) :
    (calls.flatMap Call.visits).countP Visit.isUse = (calls.flatMap Call.tokens).length := by
  have hall : ∀ visit ∈ calls.flatMap Call.visits, visit.isUse = true := by
    intro visit hvisit
    obtain ⟨call, hcall, hmem⟩ := List.mem_flatMap.1 hvisit
    exact isUse_of_looksUp (h call hcall) visit hmem
  rw [List.countP_eq_length.2 hall, List.length_flatMap, List.length_flatMap]
  congr 1
  refine List.map_congr_left fun call _ => ?_
  cases call with
  | record | regionText => rfl
  | init | display => exact List.length_map _

/-- What a recency list misses is what is resolved. -/
theorem resolutions_missed (hsettled : resolver.Settled p expected) (capacity : Nat)
    {calls : List Call} (hcalls : ∀ call ∈ calls, call.looksUp = true) {s : σ} (hs : p s) :
    resolver.Resolutions capacity calls s
      (RecencyList.empty.missed capacity expected (calls.flatMap Call.visits)) := by
  obtain ⟨answers, used, hrun, -, hvisited, -⟩ :=
    makes_calls hsettled calls _ _ s (.ofCapacity capacity) hs
  obtain ⟨answers', used', hrun', -, -, -⟩ :=
    makes_calls hsettled.noting calls _ _ (s, []) (.ofCapacity capacity) hs
  refine ⟨?_, ?_, congrArg Prod.snd hrun⟩
  · rw [hrun, hvisited.uses, countP_visits hcalls]
    change 0 + _ + _ = _
    rw [Nat.zero_add]
    rfl
  · rw [hrun', afterAll_noting, List.nil_append]
    rfl

end Resolver

namespace Memory

namespace File

/-- **More room, and no less is held.** After the same calls of two caches,
one of which has more room or any amount, every record that the first holds is
held by the second. So resolvers on one file that are asked the same, and
look up each record to use it, resolve no more with more room: some of the
tokens that the other resolves, in the same order. -/
theorem inclusion_of_moreRoom (file : File) (flavor : ReferenceFlavor) {capacity more : Nat}
    (hmore : more = 0 ∨ 0 < capacity ∧ capacity ≤ more) :
    (∀ calls answers answers' last last',
      RecordCache.Runs (.ofCapacity capacity) calls answers last →
      RecordCache.Runs (.ofCapacity more) calls answers' last' →
      ∀ token stamped, last.find? token = some stamped →
        ∃ stamped', last'.find? token = some stamped' ∧ stamped'.record = stamped.record) ∧
    ∀ calls : List Resolver.Call, (∀ call ∈ calls, call.looksUp = true) →
      let resolver : Resolver File := ⟨lookups, flavor⟩
      ∃ missed missed', resolver.Resolutions capacity calls file missed ∧
        resolver.Resolutions more calls file missed' ∧ missed'.Sublist missed := by
  refine ⟨fun calls answers answers' last last' hruns hruns' token stamped hfind =>
    RecordCache.find?_of_runs_of_moreRoom hmore hruns hruns' hfind, ?_⟩
  intro calls hcalls resolver
  have hsettled : resolver.Settled (Like file []) (file.describe flavor) :=
    settled_lookups file flavor
  refine ⟨_, _, Resolver.resolutions_missed hsettled capacity hcalls (.refl file),
    Resolver.resolutions_missed hsettled more hcalls (.refl file), ?_⟩
  refine RecencyList.missed_sublist_of_moreRoom hsettled.token hmore (fun visit hvisit => ?_)
    (.empty capacity more) (fun _ h => by cases h) fun _ h => by cases h
  obtain ⟨call, hcall, hmem⟩ := List.mem_flatMap.1 hvisit
  exact Resolver.isUse_of_looksUp (hcalls call hcall) visit hmem

/-- Two tokens that are asked for by turns are resolved three times with room
for one record, and twice with room for both. -/
theorem inclusion_of_moreRoom_two :
    let group := (ofPath "f.h5").addObject "/g" .group []
    let first := group.2.mintObject group.1
    let second := first.2.mintOther group.1
    let calls : List Resolver.Call := [.record first.1, .record second.1, .regionText first.1]
    ∃ missed missed', Resolver.Resolutions ⟨lookups, .standard⟩ 1 calls second.2 missed ∧
      Resolver.Resolutions ⟨lookups, .standard⟩ 2 calls second.2 missed' ∧
      missed'.Sublist missed ∧ missed.length = 3 ∧ missed'.length = 2 := by
  intro group first second calls
  have hmore : 2 = 0 ∨ 0 < 1 ∧ 1 ≤ 2 := by decide
  obtain ⟨missed, missed', hone, htwo, hsublist⟩ :=
    (inclusion_of_moreRoom second.2 .standard hmore).2 calls (by decide)
  refine ⟨missed, missed', hone, htwo, hsublist, ?_, ?_⟩
  · have huses := hone.uses
    have hcount : (((calls.mapM (Resolver.Call.run ⟨lookups, .standard⟩)).run
      (.ofCapacity 1)).run second.2).1.2.uses = 6 := by decide +kernel
    have hasked : (calls.flatMap Resolver.Call.tokens).length = 3 := by decide +kernel
    omega
  · have huses := htwo.uses
    have hcount : (((calls.mapM (Resolver.Call.run ⟨lookups, .standard⟩)).run
      (.ofCapacity 2)).run second.2).1.2.uses = 5 := by decide +kernel
    have hasked : (calls.flatMap Resolver.Call.tokens).length = 3 := by decide +kernel
    omega

end File

end Memory

end TypedAttr
