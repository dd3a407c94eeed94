import TypedAttr.Proofs.Attribute.Freshness
import TypedAttr.Proofs.Attribute.WrittenPaths
import TypedAttr.Proofs.Reference.Noting
import TypedAttr.Proofs.Reference.Revisits
/-!
# How often the records of an attribute are resolved

To give the records of its tokens, an attribute comes to each token twice:
once to see to it that there is a record, and once to use it. With room for
the records of all of them nothing is resolved twice. Without it the second
round may find that the first one's records have pushed each other out, and
then tokens are resolved again (`resolved_of_referenceRecords`).
-/

namespace TypedAttr

/-- What is given by an action that may fail, if it does not. -/
theorem ok_of_attempt {σ α : Type} {action : Action σ α} {s : σ} {a : α}
    (h : (attempt action s).1 = some a) : action s = .ok a (stateAfter action s) := by
  rw [attempt] at h
  rw [stateAfter]
  cases hrun : action s with
  | ok b t =>
    rw [hrun] at h
    cases h
    rfl
  | error e t =>
    rw [hrun] at h
    cases h

/-- An empty cache holds an empty list. -/
theorem RecordCache.Holds.eq_empty {cache : RecordCache} {list : RecencyList}
    (h : cache.Holds list) (hempty : cache.isEmpty = true) : list = .empty := by
  ext1
  rw [isEmpty, List.isEmpty_iff_length_eq_zero] at hempty
  exact List.length_eq_zero_iff.1 (h.size_eq.symm.trans hempty)

namespace Resolver

variable {σ : Type} {resolver : Resolver σ} {p : σ → Prop} {expected : Token → Record}

/-- The records of tokens that are all resolved beforehand. -/
def recordsOf (resolver : Resolver σ) (tokens : List Token) : Query σ (List Record) := do
  resolver.init tokens
  resolver.records tokens

/-- **Records are given in two rounds.** -/
theorem makes_recordsOf (hsettled : resolver.Settled p expected) (tokens : List Token) :
    Makes resolver p expected (RecencyList.twoRounds tokens) (resolver.recordsOf tokens)
      (·.map Record.token = tokens) :=
  (makes_init hsettled tokens).bind fun _ _ => makes_records hsettled tokens

end Resolver

/-- **A question about tokens** changes the records of an attribute and the
backend only. -/
theorem Attribute.resolving_eq {σ α : Type} (source : AttributeSource σ)
    {flavor : ReferenceFlavor} (hflavor : source.type.flavor? = some flavor)
    (lookups : ReferenceLookups σ) (query : Resolver σ → Resolver.Query σ α) (attr : Attribute)
    (s : σ) :
    Attribute.resolving source lookups query (attr, s) =
      let outcome := ((query ⟨lookups, flavor⟩).run attr.records).run s
      .ok outcome.1.1 ({ attr with records := outcome.1.2 }, outcome.2) := by
  unfold resolving
  rw [hflavor]
  rfl

namespace Memory

namespace StoredAttribute

variable {stored : StoredAttribute} {α : Type} {capacity : Nat}

/-! ## The records that an attribute keeps -/

/-- An attribute's records are a recency list, with so much room. -/
def Listed (capacity : Nat) (state : Attribute × Store) : Prop :=
  state.1.records.capacity = capacity ∧ ∃ list, state.1.records.Holds list

/-- A resolver on a store gives every token one record. -/
theorem settled_lookups (s : Store) (flavor : ReferenceFlavor) :
    (Resolver.mk lookups flavor).Settled (File.Like s.file [] ∘ Store.file)
      (s.file.describe flavor) :=
  (File.settled_lookups s.file flavor).onPart isPart_file

theorem listed_read : Preserves (Listed capacity) (Attribute.read stored.source) := by
  rintro ⟨attr, s⟩ h
  unfold stateAfter
  rw [Attribute.read_eq]
  cases attr.data with
  | some data => exact h
  | none =>
    dsimp only
    cases stored.source.read attr.options s with
    | ok | error => exact h

theorem listed_readSelection :
    Preserves (Listed capacity) (Attribute.readSelection stored.source) :=
  listed_read.bind fun _ _ h => h

theorem listed_write (data : Data) :
    Preserves (Listed capacity) (Attribute.write stored.source data) := by
  rintro ⟨attr, s⟩ h
  unfold stateAfter
  rw [Attribute.write_eq]
  cases stored.source.write attr.options data s with
  | ok | error => exact h

theorem listed_referenceTokens :
    Preserves (Listed capacity) (Attribute.referenceTokens stored.source) := by
  refine listed_read.bind fun data => ?_
  cases data.tokens? with
  | none => exact .throw _
  | some tokens => exact .pure tokens

/-- Queries only visit. -/
theorem listed_resolving {query : Resolver Store → Resolver.Query Store α}
    (hquery : ∀ (s : Store) flavor, ∃ visits good, Resolver.Makes ⟨lookups, flavor⟩
      (File.Like s.file [] ∘ Store.file) (s.file.describe flavor) visits
      (query ⟨lookups, flavor⟩) good) :
    Preserves (Listed capacity) (Attribute.resolving stored.source lookups query) := by
  rintro ⟨attr, s⟩ ⟨hcapacity, list, hholds⟩
  unfold stateAfter
  cases hflavor : stored.source.type.flavor? with
  | none =>
    unfold Attribute.resolving
    rw [hflavor]
    exact ⟨hcapacity, list, hholds⟩
  | some flavor =>
    obtain ⟨visits, good, hmakes⟩ := hquery s flavor
    obtain ⟨a, used, hrun, -, hvisited, -⟩ := hmakes attr.records list s hholds (.refl s.file)
    rw [Attribute.resolving_eq _ hflavor, hrun]
    exact ⟨hvisited.capacity.trans hcapacity, _, hvisited.holds⟩

/-- **No call keeps more records than there is room for**, or keeps them in
another way. -/
theorem listed_call (call : Call) : Preserves (Listed capacity) (call.run stored) := by
  cases call with
  | read => exact listed_read.bind fun _ => .pure ()
  | readSelection => exact listed_readSelection.bind fun _ => .pure ()
  | write data => exact listed_write data
  | setSelection | selectMembers | clear | fail | heal => exact fun _ h => h
  | referenceRecord token =>
    refine Preserves.bind (listed_resolving fun s flavor => ?_) fun _ => .pure ()
    exact ⟨_, _, Resolver.makes_record (settled_lookups s flavor) token⟩
  | regionText token =>
    refine Preserves.bind (listed_resolving fun s flavor => ?_) fun _ => .pure ()
    exact ⟨_, fun _ => True,
      (Resolver.makes_record (settled_lookups s flavor) token).map fun _ _ => trivial⟩
  | referenceTokens => exact listed_referenceTokens.bind fun _ => .pure ()
  | referenceRecords =>
    refine Preserves.bind ?_ fun _ => .pure ()
    refine listed_referenceTokens.bind fun tokens => listed_resolving fun s flavor => ?_
    exact ⟨_, _, Resolver.makes_recordsOf (settled_lookups s flavor) tokens⟩
  | displayReferences =>
    refine Preserves.bind (listed_referenceTokens.bind fun tokens => ?_) fun _ => .pure ()
    refine Preserves.bind (fun _ h => h) fun attr => listed_resolving fun s flavor => ?_
    exact ⟨_, fun _ => True,
      (Resolver.makes_records (settled_lookups s flavor) tokens).map fun _ _ => trivial⟩

theorem listed_afterCalls (calls : List Call) {state : Attribute × Store}
    (h : Listed capacity state) : Listed capacity (stored.afterCalls calls state) := by
  unfold afterCalls
  induction calls generalizing state with
  | nil => exact h
  | cons call rest ih => exact ih (listed_call call h)

/-- Reading tokens leaves it so, too. -/
theorem listed_of_referenceTokens {state : Attribute × Store} {tokens : List Token}
    {attr : Attribute} {s : Store} (h : Listed capacity state)
    (htokens : Attribute.referenceTokens stored.source state = .ok tokens (attr, s)) :
    Listed capacity (attr, s) := by
  have hread : Preserves (Listed capacity) (Attribute.referenceTokens stored.source) :=
    listed_referenceTokens
  have hafter := hread h
  rwa [stateAfter, htokens] at hafter

/-! ## One call for all records -/

section TwoRounds

variable (stored) {flavor : ReferenceFlavor} {tokens : List Token} {attr : Attribute} {s : Store}

/-- The tokens that are resolved for the records of all. -/
def resolvedFor (flavor : ReferenceFlavor) (tokens : List Token) (attr : Attribute) (s : Store) :
    List Token :=
  let resolver : Resolver Store := ⟨lookups, flavor⟩
  (((resolver.noting.recordsOf tokens).run attr.records).run (s, [])).2.2

/-- They are those that two rounds miss, without any of zeros. -/
theorem resolvedFor_eq {list : RecencyList} (hholds : attr.records.Holds list) :
    resolvedFor flavor tokens attr s = (list.missed attr.records.capacity
      (s.file.describe flavor) (RecencyList.twoRounds tokens)).filter (!·.isNull) := by
  obtain ⟨_, _, hrun, -, -, -⟩ := Resolver.makes_recordsOf (settled_lookups s flavor).noting
    tokens attr.records list (s, []) hholds (.refl s.file)
  have hlog := congrArg (·.2.2) hrun
  rwa [Resolver.afterAll_noting, List.nil_append] at hlog

/-- **The records of all tokens** are given from whatever is kept. -/
theorem referenceRecords_of_listed {state : Attribute × Store}
    (hflavor : stored.type.flavor? = some flavor) (hlisted : Listed capacity (attr, s))
    (htokens : Attribute.referenceTokens stored.source state = .ok tokens (attr, s)) :
    ∃ records used, Attribute.referenceRecords stored.source lookups state =
        .ok records ({ attr with records := used },
          (Resolver.mk lookups flavor).afterAll (resolvedFor flavor tokens attr s) s) ∧
      records.map Record.token = tokens := by
  obtain ⟨-, list, hholds⟩ := hlisted
  obtain ⟨records, used, hrun, hrecords, -, -⟩ :=
    Resolver.makes_recordsOf (settled_lookups s flavor) tokens attr.records list s hholds
      (.refl s.file)
  refine ⟨records, used, ?_, hrecords⟩
  rw [resolvedFor_eq hholds, Resolver.afterAll_filter, Attribute.referenceRecords,
    bind_of_ok htokens]
  have hquery := Attribute.resolving_eq stored.source hflavor lookups
    (·.recordsOf tokens) attr s
  rw [hrun] at hquery
  exact hquery

end TwoRounds

/-- **What is resolved for the records of all tokens.** After any calls on an
attribute of references, if its tokens can be read, it gives one record for
each, in order. The file is left as if the tokens that are taken down had been
resolved one after the other: some of the tokens in a first round, and some in
a second. Each is resolved once at most if there is room for the records of
all; and if no record was kept before and no token is all zeros, only then. -/
theorem resolved_of_referenceRecords (stored : StoredAttribute) {flavor : ReferenceFlavor}
    (hflavor : stored.type.flavor? = some flavor) (settings : Settings) (store : Store)
    (calls : List Call) {tokens : List Token} {attr : Attribute} {s : Store}
    (htokens : Attribute.referenceTokens stored.source
      (stored.afterCalls calls (.ofSpace stored.space settings, store)) = .ok tokens (attr, s)) :
    let resolved := resolvedFor flavor tokens attr s
    let room := settings.cacheCapacity.toNat = 0 ∨
      tokens.dedup.length ≤ settings.cacheCapacity.toNat
    (∃ records used, Attribute.referenceRecords stored.source lookups
        (stored.afterCalls calls (.ofSpace stored.space settings, store)) =
          .ok records ({ attr with records := used },
            (Resolver.mk lookups flavor).afterAll resolved s) ∧
        records.map Record.token = tokens) ∧
      (∃ first second, resolved = first ++ second ∧ first.Sublist tokens ∧
        second.Sublist tokens ∧ ∀ token ∈ resolved, token.isNull = false) ∧
      (room → resolved.Nodup) ∧
      (attr.records.isEmpty = true → (∀ token ∈ tokens, token.isNull = false) →
        resolved.Nodup → room) := by
  intro resolved room
  have hstart : Listed settings.cacheCapacity.toNat
      (.ofSpace stored.space settings, store) := ⟨rfl, _, .ofCapacity _⟩
  have hlisted := listed_of_referenceTokens (listed_afterCalls calls hstart) htokens
  obtain ⟨hcapacity, list, hholds⟩ := id hlisted
  have hkey := (settled_lookups s flavor).token
  have hresolved : resolved = (list.missed settings.cacheCapacity.toNat (s.file.describe flavor)
      (RecencyList.twoRounds tokens)).filter (!·.isNull) := by
    rw [← hcapacity]
    exact resolvedFor_eq hholds
  refine ⟨referenceRecords_of_listed stored hflavor hlisted htokens, ?_, fun hroom => ?_,
    fun hempty hnonzero hnodup => ?_⟩
  · obtain ⟨first, second, hmissed, hfirst, hsecond⟩ := RecencyList.exists_missed_rounds
      settings.cacheCapacity.toNat (s.file.describe flavor) tokens list
    refine ⟨first.filter (!·.isNull), second.filter (!·.isNull), ?_,
      List.filter_sublist.trans hfirst, List.filter_sublist.trans hsecond, fun token hmem => ?_⟩
    · rw [hresolved, hmissed, List.filter_append]
    · rw [hresolved] at hmem
      simpa using (List.mem_filter.1 hmem).2
  · rw [hresolved]
    exact (RecencyList.nodup_missed hkey hroom (fun _ => RecencyList.mem_of_mem_twoRounds)
      list).1.sublist List.filter_sublist
  · obtain rfl : list = .empty := hholds.eq_empty hempty
    have hall : resolved = RecencyList.empty.missed settings.cacheCapacity.toNat
        (s.file.describe flavor) (RecencyList.twoRounds tokens) := by
      rw [hresolved, List.filter_eq_self]
      intro token hmem
      obtain ⟨first, second, hmissed, hfirst, hsecond⟩ := RecencyList.exists_missed_rounds
        settings.cacheCapacity.toNat (s.file.describe flavor) tokens .empty
      rw [hmissed, List.mem_append] at hmem
      rw [hnonzero token (hmem.elim (hfirst.subset ·) (hsecond.subset ·))]
      rfl
    rwa [hall, RecencyList.nodup_missed_iff hkey] at hnodup

/-- Two tokens with room for the record of one: both are resolved in both
rounds. -/
theorem resolved_of_referenceRecords_crowded :
    let group := (File.ofPath "f.h5").addObject "/g" .group []
    let first := group.2.mintObject group.1
    let second := first.2.mintObject group.1
    let stored : StoredAttribute :=
      { name := "refs", type := .referenceOf .standard, space := .line 2 }
    let settings : Settings := { cacheCapacity := 1 }
    let store : Store := ⟨second.2, .packed (first.1.bytes ++ second.1.bytes)⟩
    let state := stored.afterCalls [] (.ofSpace stored.space settings, store)
    ∃ attr s records w,
      Attribute.referenceTokens stored.source state = .ok [first.1, second.1] (attr, s) ∧
        Attribute.referenceRecords stored.source lookups state = .ok records w ∧
        records.map Record.token = [first.1, second.1] ∧
        resolvedFor .standard [first.1, second.1] attr s =
          [first.1, second.1, first.1, second.1] := by
  intro group first second stored settings store state
  have htwo : (attempt (Attribute.referenceTokens stored.source) state).1 =
      some [first.1, second.1] := by decide +kernel
  have hread := ok_of_attempt htwo
  obtain ⟨⟨records, used, hrecords, htokens⟩, -⟩ :=
    resolved_of_referenceRecords stored rfl settings store [] hread
  have hresolved : resolvedFor .standard [first.1, second.1]
      (stateAfter (Attribute.referenceTokens stored.source) state).1
      (stateAfter (Attribute.referenceTokens stored.source) state).2 =
        [first.1, second.1, first.1, second.1] := by decide +kernel
  exact ⟨_, _, records, _, hread, hrecords, htokens, hresolved⟩

end StoredAttribute

end Memory

end TypedAttr
