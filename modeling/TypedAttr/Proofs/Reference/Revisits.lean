import Mathlib.Data.List.Dedup
import Mathlib.Data.List.Perm.Subperm
import TypedAttr.Proofs.Reference.Visits
/-!
# Tokens that are visited more than once

With room for the records of all tokens that are visited, none is missed
twice, whatever was kept before: a record that is kept is pushed back by the
records of other tokens only, and of these there are too few to push it out
(`Recent`). Without that room, to visit all tokens twice is to miss one of
them twice (`nodup_missed_iff`).
-/

namespace TypedAttr

namespace RecencyList

variable {capacity : Nat} {expected : Token → Record} {list : RecencyList} {record : Record}
variable {token : Token} {about : List Token}

/-! ## What is kept after a visit -/

/-- The tokens of the records that are kept. -/
def tokens (list : RecencyList) : List Token := list.records.map Record.token

theorem find?_eq_none_iff : list.find? token = none ↔ token ∉ list.tokens := by
  rw [find?_eq_none, tokens, List.mem_map]
  exact ⟨fun h ⟨record, hmem, htoken⟩ => h record hmem htoken,
    fun h record hmem htoken => h ⟨record, hmem, htoken⟩⟩

theorem mem_tokens_of_mem_touch (h : token ∈ (list.touch record).tokens) :
    token = record.token ∨ token ∈ list.tokens := by
  rcases List.mem_cons.1 h with rfl | hold
  · exact .inl rfl
  · exact .inr ((List.filter_sublist.map _).subset hold)

/-- A visit brings in one token at most. -/
theorem mem_tokens_of_mem_visit (hkey : ∀ token, (expected token).token = token) {visit : Visit}
    (h : token ∈ (list.visit capacity expected visit).tokens) :
    token = visit.token ∨ token ∈ list.tokens := by
  rw [RecencyList.visit] at h
  cases hfind : list.find? visit.token with
  | some record =>
    have htoken : record.token = visit.token := by simpa using List.find?_some hfind
    rw [hfind] at h
    dsimp only at h
    split at h
    · exact htoken ▸ mem_tokens_of_mem_touch h
    · exact .inr h
  | none =>
    rw [hfind] at h
    have htouch : token ∈ (list.touch (expected visit.token)).tokens := by
      rw [RecencyList.insert, tokens, records_bounded] at h
      split at h
      · exact h
      · exact ((List.take_sublist _ _).map _).subset h
    exact hkey visit.token ▸ mem_tokens_of_mem_touch htouch

/-- A visit leaves no more than there is room for. -/
theorem length_visit_le (hcapacity : 0 < capacity) (hroom : list.records.length ≤ capacity)
    (visit : Visit) : (list.visit capacity expected visit).records.length ≤ capacity := by
  rw [RecencyList.visit]
  cases hfind : list.find? visit.token with
  | some record =>
    have htoken : record.token = visit.token := by simpa using List.find?_some hfind
    dsimp only
    split
    · exact Nat.le_trans (length_touch_of_find? (htoken.symm ▸ hfind)) hroom
    · exact hroom
  | none =>
    dsimp only
    rw [RecencyList.insert, records_bounded, if_neg (by omega)]
    exact List.length_take_le _ _

theorem length_visitAll_le (hcapacity : 0 < capacity) (hroom : list.records.length ≤ capacity)
    (visits : List Visit) :
    (list.visitAll capacity expected visits).records.length ≤ capacity := by
  induction visits generalizing list with
  | nil => exact hroom
  | cons visit rest ih => exact ih (length_visit_le hcapacity hroom visit)

/-- What is visited is missed, unless it was there. -/
theorem mem_missed_or_mem_tokens (hkey : ∀ token, (expected token).token = token)
    {visits : List Visit} {visit : Visit} (hmem : visit ∈ visits) :
    visit.token ∈ list.missed capacity expected visits ∨ visit.token ∈ list.tokens := by
  induction visits generalizing list with
  | nil => cases hmem
  | cons head rest ih =>
    cases hfind : list.find? head.token with
    | some record =>
      have hthere : head.token ∈ list.tokens := by
        by_contra hnot
        rw [find?_eq_none_iff.2 hnot] at hfind
        cases hfind
      rw [missed_cons_of_find? hfind]
      rcases List.mem_cons.1 hmem with rfl | hrest
      · exact .inr hthere
      · refine (ih hrest).imp_right fun hafter => ?_
        rcases mem_tokens_of_mem_visit hkey hafter with hsame | hold
        · exact hsame ▸ hthere
        · exact hold
    | none =>
      rw [missed_cons_of_find?_eq_none hfind]
      rcases List.mem_cons.1 hmem with rfl | hrest
      · exact .inl List.mem_cons_self
      · have hlater : visit.token ∈ (list.visit capacity expected head).missed capacity expected
            rest ∨ visit.token ∈ (list.visit capacity expected head).tokens := ih hrest
        rcases hlater with hmissed | hafter
        · exact .inl (List.mem_cons_of_mem _ hmissed)
        · rcases mem_tokens_of_mem_visit hkey hafter with hsame | hold
          · exact .inl (hsame ▸ List.mem_cons_self)
          · exact .inr hold

/-! ## Room for all -/

/-- **A token has a recent record** if only records of some tokens were used
after it. -/
def Recent (about : List Token) (token : Token) (list : RecencyList) : Prop :=
  ∃ front record back, list.records = front ++ record :: back ∧ record.token = token ∧
    ∀ other ∈ front, other.token ∈ about

namespace Recent

theorem mem_tokens (h : list.Recent about token) : token ∈ list.tokens := by
  obtain ⟨front, record, back, hrecords, rfl, -⟩ := h
  rw [tokens, hrecords]
  exact List.mem_map_of_mem (List.mem_append_right _ List.mem_cons_self)

/-- A record that is used is recent. -/
theorem touch_self (list : RecencyList) (record : Record) :
    (list.touch record).Recent about record.token :=
  ⟨[], record, _, rfl, rfl, fun _ h => by cases h⟩

/-- A use of one of the tokens leaves it recent. -/
theorem touch (h : list.Recent about token) (hrecord : record.token ∈ about) :
    (list.touch record).Recent about token := by
  by_cases hsame : record.token = token
  · exact hsame ▸ touch_self list record
  · obtain ⟨front, found, back, hrecords, htoken, hfront⟩ := h
    refine ⟨record :: front.filter (·.token ≠ record.token), found,
      back.filter (·.token ≠ record.token), ?_, htoken, ?_⟩
    · have hother : found.token ≠ record.token := fun h => hsame (h.symm.trans htoken)
      rw [records_touch, hrecords, List.filter_append,
        List.filter_cons_of_pos (by simpa using hother), List.cons_append]
    · intro other hother
      rcases List.mem_cons.1 hother with rfl | hother
      · exact hrecord
      · exact hfront other (List.mem_filter.1 hother).1

/-- There are no more records in front of it than there are tokens. -/
theorem bounded (h : list.Recent about token) (htoken : token ∈ about)
    (hroom : capacity = 0 ∨ about.dedup.length ≤ capacity) :
    (list.bounded capacity).Recent about token := by
  obtain ⟨front, record, back, hrecords, hkey, hfront⟩ := h
  by_cases hcapacity : capacity = 0
  · refine ⟨front, record, back, ?_, hkey, hfront⟩
    rw [records_bounded, if_pos hcapacity, hrecords]
  · have hnodup : ((front ++ [record]).map Record.token).Nodup := by
      have hsplit : list.records = (front ++ [record]) ++ back := by
        rw [hrecords, List.append_assoc]
        rfl
      refine list.nodup.sublist ?_
      rw [hsplit]
      exact (List.sublist_append_left _ _).map _
    have hsubset : (front ++ [record]).map Record.token ⊆ about.dedup := by
      intro other hother
      obtain ⟨found, hfound, rfl⟩ := List.mem_map.1 hother
      rw [List.mem_dedup]
      rcases List.mem_append.1 hfound with hfound | hfound
      · exact hfront found hfound
      · rw [List.mem_singleton.1 hfound, hkey]
        exact htoken
    have hlength := (List.subperm_of_subset hnodup hsubset).length_le
    rw [List.length_map, List.length_append, List.length_singleton] at hlength
    refine ⟨front, record, back.take (capacity - (front.length + 1)), ?_, hkey, hfront⟩
    obtain ⟨more, rfl⟩ : ∃ more, capacity = front.length + (more + 1) :=
      ⟨capacity - (front.length + 1), by omega⟩
    rw [records_bounded, if_neg hcapacity, hrecords, List.take_length_add_append,
      List.take_succ_cons]
    congr 3
    omega

/-- A visit to one of the tokens leaves all of them recent that were. -/
theorem visit (hkey : ∀ token, (expected token).token = token) (h : list.Recent about token)
    (htoken : token ∈ about) (hroom : capacity = 0 ∨ about.dedup.length ≤ capacity)
    {visit : Visit} (hvisit : visit.token ∈ about) :
    (list.visit capacity expected visit).Recent about token := by
  rw [RecencyList.visit]
  cases hfind : list.find? visit.token with
  | some record =>
    have hrecord : record.token = visit.token := by simpa using List.find?_some hfind
    dsimp only
    split
    · exact h.touch (hrecord ▸ hvisit)
    · exact h
  | none => exact (h.touch ((hkey _).symm ▸ hvisit)).bounded htoken hroom

end Recent

/-- **With room for all, none is missed twice**, and none that has a recent
record is missed. -/
theorem nodup_missed (hkey : ∀ token, (expected token).token = token)
    (hroom : capacity = 0 ∨ about.dedup.length ≤ capacity) {visits : List Visit}
    (hvisits : ∀ visit ∈ visits, visit.token ∈ about) (list : RecencyList) :
    (list.missed capacity expected visits).Nodup ∧
      ∀ token ∈ about, list.Recent about token →
        token ∉ list.missed capacity expected visits := by
  induction visits generalizing list with
  | nil => exact ⟨.nil, fun _ _ _ => List.not_mem_nil⟩
  | cons visit rest ih =>
    have hvisit := hvisits visit List.mem_cons_self
    have hrest : ∀ other ∈ rest, other.token ∈ about :=
      fun other hother => hvisits other (List.mem_cons_of_mem _ hother)
    obtain ⟨hnodup, hrecent⟩ := ih hrest (list.visit capacity expected visit)
    cases hfind : list.find? visit.token with
    | some record =>
      rw [missed_cons_of_find? hfind]
      exact ⟨hnodup, fun token htoken h => hrecent token htoken (h.visit hkey htoken hroom hvisit)⟩
    | none =>
      rw [missed_cons_of_find?_eq_none hfind]
      -- a token that is missed has a recent record from then on
      have hself : (list.visit capacity expected visit).Recent about visit.token := by
        rw [RecencyList.visit, hfind]
        have htouch : (list.touch (expected visit.token)).Recent about
            (expected visit.token).token := .touch_self list _
        rw [hkey] at htouch
        exact htouch.bounded hvisit hroom
      refine ⟨List.nodup_cons.2 ⟨hrecent _ hvisit hself, hnodup⟩, fun token htoken h hmem => ?_⟩
      rcases List.mem_cons.1 hmem with rfl | hlater
      · exact find?_eq_none_iff.1 hfind h.mem_tokens
      · exact hrecent token htoken (h.visit hkey htoken hroom hvisit) hlater

/-! ## Two rounds -/

/-- The visits of two rounds: one to see to it that there is a record of every
token, and one to use them. -/
def twoRounds (tokens : List Token) : List Visit :=
  tokens.map (⟨·, false⟩) ++ tokens.map (⟨·, true⟩)

variable {tokens : List Token}

theorem map_token_round (isUse : Bool) (tokens : List Token) :
    (tokens.map fun token => (⟨token, isUse⟩ : Visit)).map Visit.token = tokens := by
  rw [List.map_map]
  exact List.map_id _

theorem mem_of_mem_twoRounds {visit : Visit} (h : visit ∈ twoRounds tokens) :
    visit.token ∈ tokens := by
  rcases List.mem_append.1 h with h | h
  · exact map_token_round false tokens ▸ List.mem_map_of_mem h
  · exact map_token_round true tokens ▸ List.mem_map_of_mem h

/-- Each round misses some of the tokens. -/
theorem exists_missed_rounds (capacity : Nat) (expected : Token → Record) (tokens : List Token)
    (list : RecencyList) :
    ∃ first second, list.missed capacity expected (twoRounds tokens) = first ++ second ∧
      first.Sublist tokens ∧ second.Sublist tokens := by
  have hround (isUse : Bool) (list : RecencyList) :
      (list.missed capacity expected (tokens.map (⟨·, isUse⟩))).Sublist tokens := by
    have hvisited := missed_sublist capacity expected (tokens.map (⟨·, isUse⟩)) list
    rwa [map_token_round] at hvisited
  exact ⟨_, _, missed_append _ _, hround false _, hround true _⟩

/-- Without room for all, some token has no record after the first round. -/
theorem exists_gone (hcapacity : 0 < capacity) (hroom : capacity < tokens.dedup.length)
    (visits : List Visit) :
    ∃ token ∈ tokens, token ∉ (empty.visitAll capacity expected visits).tokens := by
  by_contra hall
  push Not at hall
  have hsubset : tokens.dedup ⊆ (empty.visitAll capacity expected visits).tokens :=
    fun token htoken => hall token (List.mem_dedup.1 htoken)
  have hkept := (List.subperm_of_subset (List.nodup_dedup _) hsubset).length_le
  have hlength : (empty.visitAll capacity expected visits).records.length ≤ capacity :=
    length_visitAll_le hcapacity (Nat.zero_le _) visits
  rw [RecencyList.tokens, List.length_map] at hkept
  omega

/-- **Two rounds miss none twice just if there is room for all**, where
nothing is kept at first. -/
theorem nodup_missed_iff (hkey : ∀ token, (expected token).token = token) :
    (empty.missed capacity expected (twoRounds tokens)).Nodup ↔
      capacity = 0 ∨ tokens.dedup.length ≤ capacity := by
  constructor
  · intro hnodup
    by_contra hroom
    obtain ⟨token, htoken, hgone⟩ : ∃ token ∈ tokens, token ∉
        (empty.visitAll capacity expected (tokens.map (⟨·, false⟩))).tokens :=
      exists_gone (by omega) (by omega) _
    have hfirst : (⟨token, false⟩ : Visit) ∈ tokens.map (⟨·, false⟩) := List.mem_map_of_mem htoken
    have hsecond : (⟨token, true⟩ : Visit) ∈ tokens.map (⟨·, true⟩) := List.mem_map_of_mem htoken
    -- nothing was there before the first round, and this one is not after it
    have hmissed : token ∈ empty.missed capacity expected (tokens.map (⟨·, false⟩)) :=
      (mem_missed_or_mem_tokens hkey hfirst).resolve_right List.not_mem_nil
    have hmissed' : token ∈ (empty.visitAll capacity expected (tokens.map (⟨·, false⟩))).missed
        capacity expected (tokens.map (⟨·, true⟩)) :=
      (mem_missed_or_mem_tokens hkey hsecond).resolve_right hgone
    rw [twoRounds, missed_append, List.nodup_append] at hnodup
    exact hnodup.2.2 token hmissed token hmissed' rfl
  · intro hroom
    exact (nodup_missed hkey hroom (fun _ => mem_of_mem_twoRounds) empty).1

end RecencyList

end TypedAttr
