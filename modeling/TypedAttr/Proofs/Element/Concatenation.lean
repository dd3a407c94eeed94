import TypedAttr.Proofs.Datatype.Packing
import TypedAttr.Proofs.Element.NeverWritten
import TypedAttr.Proofs.Element.Projection
/-!
# Elements as concatenations

With all members, the bytes of a compound are those of its members one behind
the other at their declared offsets, and the bytes of an array those of its
items in row-major order. Each part is decoded from its own slot and from
nothing else, and encoding joins what the parts are encoded to (`Joins`), or
fails as the first part does that fails (`decode_encode_concatenation`).
-/

namespace TypedAttr

/-! ## Results that are joined -/

section Joins

variable {α : Type} {each : α → Except Error Bytes} {items : List α}

/-- Whether a result is that of items one after the other: all of their bytes
joined, or the error of the first item that has one. -/
structure Joins (each : α → Except Error Bytes) (items : List α)
    (result : Except Error Bytes) : Prop where
  ok_iff : ∀ bytes, result = .ok bytes ↔
    ∃ pieces : List Bytes, items.map each = pieces.map .ok ∧ pieces.flatten = bytes
  error_iff : ∀ e, result = .error e ↔
    ∃ before item after, items = before ++ item :: after ∧
      (∀ earlier ∈ before, ∃ piece, each earlier = .ok piece) ∧ each item = .error e

theorem mapM_eq_ok_iff {pieces : List Bytes} :
    items.mapM each = .ok pieces ↔ items.map each = pieces.map .ok := by
  induction items generalizing pieces with
  | nil => cases pieces <;> simp [pure, Except.pure]
  | cons item rest ih =>
    rw [List.mapM_cons, List.map_cons]
    cases hitem : each item with
    | error e => cases pieces <;> simp [bind, Except.bind]
    | ok piece =>
      cases pieces with
      | nil => cases hrest : rest.mapM each <;> simp [bind, Except.bind, pure, Except.pure]
      | cons first pieces =>
        rw [List.map_cons, List.cons.injEq, ← ih]
        cases hrest : rest.mapM each <;> simp [bind, Except.bind, pure, Except.pure]

/-- What comes first among some items is the first of them, or comes first
behind it. -/
theorem exists_first_cons {p q : α → Prop} {item : α} {rest : List α} :
    (∃ before first after, item :: rest = before ++ first :: after ∧
      (∀ earlier ∈ before, p earlier) ∧ q first) ↔
      q item ∨ p item ∧ ∃ before first after, rest = before ++ first :: after ∧
        (∀ earlier ∈ before, p earlier) ∧ q first := by
  constructor
  · rintro ⟨before, first, after, hsplit, hbefore, hfirst⟩
    rcases List.cons_eq_append_iff.1 hsplit with ⟨rfl, hitem⟩ | ⟨before', rfl, hrest⟩
    · obtain ⟨rfl, -⟩ := List.cons.inj hitem
      exact .inl hfirst
    · obtain ⟨hitem, hbefore⟩ := List.forall_mem_cons.1 hbefore
      exact .inr ⟨hitem, before', first, after, hrest, hbefore, hfirst⟩
  · rintro (hitem | ⟨hitem, before, first, after, rfl, hbefore, hfirst⟩)
    · exact ⟨[], item, rest, rfl, by simp, hitem⟩
    · exact ⟨item :: before, first, after, rfl, List.forall_mem_cons.2 ⟨hitem, hbefore⟩, hfirst⟩

/-- Items that are met one after the other fail as the first does that
fails. -/
theorem mapM_eq_error_iff {e : Error} :
    items.mapM each = .error e ↔
      ∃ before item after, items = before ++ item :: after ∧
        (∀ earlier ∈ before, ∃ piece, each earlier = .ok piece) ∧ each item = .error e := by
  induction items with
  | nil => simp [pure, Except.pure]
  | cons item rest ih =>
    rw [List.mapM_cons, exists_first_cons, ← ih]
    cases each item with
    | error e' => simp [bind, Except.bind]
    | ok piece => cases rest.mapM each <;> simp [bind, Except.bind, pure, Except.pure]

/-- **Results of all items, flattened, are joined.** -/
theorem joins_mapM (each : α → Except Error Bytes) (items : List α) :
    Joins each items (List.flatten <$> items.mapM each) where
  ok_iff bytes := by
    simp only [← mapM_eq_ok_iff]
    cases items.mapM each <;> simp [Functor.map, Except.map]
  error_iff e := by
    rw [← mapM_eq_error_iff]
    cases items.mapM each <;> simp [Functor.map, Except.map]

end Joins

namespace Datatype

variable {convertText : Bool} {options : ElementOptions} {type : Datatype}
variable {members : List (String × Datatype)} {fields : List (String × Value)}

/-! ## Paths do not matter with all members -/

theorem decodeAt_all (path other : String) (type : Datatype) (bytes : Bytes) :
    decodeAt ⟨convertText, .all⟩ path type bytes =
      decodeAt ⟨convertText, .all⟩ other type bytes := by
  induction type generalizing path other bytes with
  | compound members traits ih =>
    have hmembers : ∀ rest ⊆ members, ∀ slot,
        decodeMembers ⟨convertText, .all⟩ path rest slot =
          decodeMembers ⟨convertText, .all⟩ other rest slot := by
      intro rest hrest
      induction rest with
      | nil => exact fun _ => rfl
      | cons member rest ihrest =>
        obtain ⟨hmember, hrest⟩ := List.cons_subset.1 hrest
        intro slot
        rw [decodeMembers_taken (takesPart_all _ _), decodeMembers_taken (takesPart_all _ _),
          ih member hmember _ (memberPath other member.1), ihrest hrest]
    simp only [decodeAt, hmembers members (List.Subset.refl _)]
  | array base extents traits ih => simp only [decodeAt, ih path other]
  | _ => rfl

theorem encodeAt_all (path other : String) (type : Datatype) :
    encodeAt ⟨convertText, .all⟩ path type = encodeAt ⟨convertText, .all⟩ other type := by
  induction type generalizing path other with
  | compound members traits ih =>
    have hmembers : ∀ fields, ∀ rest ⊆ members,
        encodeMembers ⟨convertText, .all⟩ path fields rest =
          encodeMembers ⟨convertText, .all⟩ other fields rest := by
      intro fields rest hrest
      induction rest with
      | nil => rfl
      | cons member rest ihrest =>
        obtain ⟨hmember, hrest⟩ := List.cons_subset.1 hrest
        funext slot
        simp only [encodeMembers, ih member hmember _ (memberPath other member.1), ihrest hrest,
          MemberSelection.includes, Bool.or_true]
    funext value slot
    unfold encodeAt
    simp only [hmembers _ members (List.Subset.refl _)]
  | array base extents traits ih =>
    funext value slot
    unfold encodeAt
    simp only [ih path other]
  | _ =>
    funext value slot
    unfold encodeAt
    rfl

/-! ## Compounds -/

/-- The fields of all members are decoded from the members' own slots. -/
theorem decodeMembers_all (above : String) {bytes : Bytes}
    (hlength : sizeOfMembers members ≤ bytes.length) :
    decodeMembers ⟨convertText, .all⟩ above members bytes =
      members.mapIdx fun i member =>
        (member.1, member.2.decode ⟨convertText, .all⟩
          ((bytes.drop (offsetOf members i)).take member.2.size)) := by
  induction members generalizing bytes with
  | nil => rfl
  | cons member rest ih =>
    rw [sizeOfMembers] at hlength
    have hrest : sizeOfMembers rest ≤ (bytes.drop member.2.size).length := by
      rw [List.length_drop]
      omega
    have hfirst : decodeAt ⟨convertText, .all⟩ (memberPath above member.1) member.2 bytes =
        member.2.decode ⟨convertText, .all⟩ (bytes.take member.2.size) := by
      rw [← decodeAt_take (by omega), decode, decodeAt_all]
    rw [decodeMembers_taken (takesPart_all _ _), List.mapIdx_cons, ih hrest, hfirst]
    simp only [offsetOf_zero, List.drop_zero, offsetOf_cons_succ, List.drop_drop]

/-- **A compound is decoded member by member**, each from its own slot. -/
theorem decode_compound (traits : Traits) {bytes : Bytes}
    (hlength : sizeOfMembers members ≤ bytes.length) :
    (compound members traits).decode ⟨convertText, .all⟩ bytes =
      .compound (members.mapIdx fun i member =>
        (member.1, member.2.decode ⟨convertText, .all⟩
          ((bytes.drop (offsetOf members i)).take member.2.size))) := by
  have htake : (bytes.take (sizeOfMembers members)).length = sizeOfMembers members :=
    List.length_take_of_le hlength
  rw [decode, decodeAt, readSlot, if_neg (by omega), decodeMembers_all _ (Nat.le_of_eq htake.symm)]
  refine congrArg Value.compound (List.mapIdx_eq_mapIdx_iff.2 fun i hi => ?_)
  -- the slot of a member ends within the compound
  rw [take_drop_take (offsetOf_add_size_le (List.getElem?_eq_getElem hi))]

/-- What is encoded is as long as the type says. -/
theorem length_of_encode {value : Value} {bytes : Bytes}
    (h : type.encode options value = .ok bytes) : bytes.length = type.size := by
  obtain ⟨-, rfl⟩ := Overlay.toExcept_eq_ok.1 h
  rw [length_encodeAt, Bytes.length_zeros]

/-- What a member is encoded to: its field, the first of its name, or zeros if
there is none. -/
def encodeMember (options : ElementOptions) (fields : List (String × Value))
    (member : String × Datatype) : Except Error Bytes :=
  match Value.lookup? member.1 fields with
  | some value => member.2.encode options value
  | none => .ok (Bytes.zeros member.2.size)

theorem length_of_encodeMember {member : String × Datatype} {bytes : Bytes}
    (h : encodeMember options fields member = .ok bytes) : bytes.length = member.2.size := by
  unfold encodeMember at h
  split at h
  · exact length_of_encode h
  · obtain rfl := Except.ok.inj h
    exact Bytes.length_zeros _

theorem toExcept_encodeField_all (path : String) (fields : List (String × Value))
    (member : String × Datatype) :
    (encodeField ⟨convertText, .all⟩ path member.1 member.2 fields
      (Bytes.zeros member.2.size)).toExcept = encodeMember ⟨convertText, .all⟩ fields member := by
  rw [encodeField, if_pos (takesPart_all _ _), encodeMember]
  cases Value.lookup? member.1 fields with
  | none => rfl
  | some value => simp only [encode, encodeAt_all path "" member.2]

theorem toExcept_encodeMembers_all (convertText : Bool) (above : String)
    (members : List (String × Datatype)) (fields : List (String × Value)) :
    (encodeMembers ⟨convertText, .all⟩ above fields members
      (Bytes.zeros (sizeOfMembers members))).toExcept =
        List.flatten <$> members.mapM (encodeMember ⟨convertText, .all⟩ fields) := by
  induction members with
  | nil => rfl
  | cons member rest ih =>
    rw [sizeOfMembers, encodeMembers_cons, Overlay.toExcept_andThen, Bytes.take_zeros,
      Bytes.drop_zeros, Nat.min_eq_left (Nat.le_add_right _ _), Nat.add_sub_cancel_left,
      toExcept_encodeField_all, ih, List.mapM_cons]
    cases encodeMember ⟨convertText, .all⟩ fields member with
    | error e => rfl
    | ok slot => cases rest.mapM (encodeMember ⟨convertText, .all⟩ fields) <;> rfl

/-- **A compound is encoded member by member**, and the results are joined. -/
theorem joins_encode_compound (convertText : Bool) (members : List (String × Datatype))
    (traits : Traits) (fields : List (String × Value)) :
    Joins (encodeMember ⟨convertText, .all⟩ fields) members
      ((compound members traits).encode ⟨convertText, .all⟩ (.compound fields)) := by
  have hencode := toExcept_encodeMembers_all convertText "" members fields
  have hjoined := joins_mapM (encodeMember ⟨convertText, .all⟩ fields) members
  rw [← hencode] at hjoined
  rwa [encode, encodeAt, settle?_eq_none rfl rfl rfl]

/-- Where members are joined, each is found in its own slot. -/
theorem encodeMember_of_pieces {pieces : List Bytes} {i : Nat} {member : String × Datatype}
    (h : members.map (encodeMember options fields) = pieces.map .ok)
    (hmember : members[i]? = some member) :
    encodeMember options fields member =
      .ok ((pieces.flatten.drop (offsetOf members i)).take member.2.size) := by
  have hpieces (j : Nat) :
      members[j]?.map (encodeMember options fields) = pieces[j]?.map .ok := by
    simpa only [List.getElem?_map] using congrArg (·[j]?) h
  have hlength (j : Nat) : pieces[j]?.map List.length = members[j]?.map (·.2.size) := by
    have hboth := hpieces j
    cases hj : members[j]? with
    | none =>
      rw [hj, Option.map_none] at hboth
      rw [Option.map_eq_none_iff.1 hboth.symm, Option.map_none, Option.map_none]
    | some member =>
      rw [hj, Option.map_some] at hboth
      obtain ⟨piece, hpiece, hencoded⟩ := Option.map_eq_some_iff.1 hboth.symm
      rw [hpiece, Option.map_some, Option.map_some, length_of_encodeMember hencoded.symm]
  have hown := hpieces i
  rw [hmember, Option.map_some] at hown
  obtain ⟨piece, hpiece, hencoded⟩ := Option.map_eq_some_iff.1 hown.symm
  rw [take_drop_flatten hlength hmember hpiece, hencoded]

/-! ## Arrays -/

/-- **An array is decoded place by place**, each item from its own slot. -/
theorem decode_array (base : Datatype) (extents : List Nat) (traits : Traits) {bytes : Bytes}
    (hlength : gridSize extents * base.size ≤ bytes.length) :
    (array base extents traits).decode options bytes =
      .array ((places extents).map fun place =>
        base.decode options
          ((bytes.drop (placeNumber extents place * base.size)).take base.size)) := by
  have hitems := congrArg (List.map fun i => base.decode options
    ((bytes.drop (i * base.size)).take base.size)) (map_placeNumber extents)
  rw [List.map_map] at hitems
  refine Eq.trans ?_ (congrArg Value.array hitems).symm
  rw [decode, decodeAt, readSlot, if_neg (by omega)]
  refine congrArg Value.array (List.map_congr_left fun i hi => ?_)
  -- the slot of an item ends within the array
  have hinside := item_end_le (List.mem_range.1 hi) base.size
  have hfits : base.size ≤
      ((bytes.take (gridSize extents * base.size)).drop (i * base.size)).length := by
    rw [List.length_drop, List.length_take]
    omega
  rw [← decodeAt_take hfits, take_drop_take hinside, decode]

/-- **An array is encoded item by item**, and the results are joined. -/
theorem joins_encode_array {extents : List Nat} {items : List Value} (options : ElementOptions)
    (base : Datatype) (traits : Traits) (hcount : items.length = gridSize extents) :
    Joins (base.encode options) items
      ((array base extents traits).encode options (.array items)) := by
  have hrun := Overlay.toExcept_run (encodeAt options "" base) base.size items
  have hjoined := joins_mapM (base.encode options) items
  rw [hcount, Nat.mul_comm] at hrun
  rw [encode, encodeAt, settle?_eq_none rfl rfl rfl]
  simp only [hcount, if_true, size, hrun]
  exact hjoined

/-- Any other count of items is refused. -/
theorem encode_array_of_ne {extents : List Nat} {items : List Value} (base : Datatype)
    (traits : Traits) (hcount : items.length ≠ gridSize extents) :
    (array base extents traits).encode options (.array items) =
      .error (.sizeMismatch (gridSize extents) items.length) := by
  rw [encode, encodeAt, settle?_eq_none rfl rfl rfl]
  simp only [hcount, if_false]
  rfl

/-- Where items are joined, each is found in its own slot. -/
theorem encode_of_pieces {base : Datatype} {items : List Value} {pieces : List Bytes} {i : Nat}
    {item : Value} (h : items.map (base.encode options) = pieces.map .ok)
    (hitem : items[i]? = some item) :
    base.encode options item =
      .ok ((pieces.flatten.drop (i * base.size)).take base.size) := by
  have hlength : ∀ piece ∈ pieces, (id piece).length = base.size := by
    intro piece hpiece
    have hmem : Except.ok piece ∈ items.map (base.encode options) :=
      h ▸ List.mem_map_of_mem hpiece
    obtain ⟨item, -, hencoded⟩ := List.mem_map.1 hmem
    exact length_of_encode hencoded
  have hsame := congrArg (·[i]?) h
  simp only [List.getElem?_map, hitem, Option.map_some] at hsame
  obtain ⟨piece, hpiece, hencoded⟩ := Option.map_eq_some_iff.1 hsame.symm
  obtain ⟨hi, rfl⟩ := List.getElem?_eq_some_iff.1 hpiece
  have hslot := take_drop_flatMap hlength hi
  rw [List.flatMap_id, id] at hslot
  rw [hslot, hencoded]

/-! ## Compounds and arrays -/

/-- **Elements are concatenations.** The members of a compound start at the
sums of the sizes before them, and their slots tile it. With all members, each
field is decoded from its member's slot and from nothing else, and a compound
is encoded as its members are, joined: the bytes of each are in its slot, or
the error is that of the first that has one. The same holds of an array and
its places in row-major order, whatever the members that were selected; and a
count of items that is not that of the places is refused. -/
theorem decode_encode_concatenation (convertText : Bool) (options : ElementOptions) :
    (∀ members traits,
      let type : Datatype := .compound members traits
      let all : ElementOptions := { convertText := convertText, members := .all }
      type.memberOffsets = (List.range members.length).map (offsetOf members) ∧
      (∀ p, p < type.size ↔ ∃! i, OwnsByte members i p) ∧
      (∀ bytes, type.size ≤ bytes.length →
        type.decode all bytes = .compound (members.mapIdx fun i member =>
          (member.1, member.2.decode all
            ((bytes.drop (offsetOf members i)).take member.2.size)))) ∧
      ∀ fields,
        Joins (encodeMember all fields) members (type.encode all (.compound fields)) ∧
        ∀ bytes, type.encode all (.compound fields) = .ok bytes →
          ∀ i member, members[i]? = some member →
            encodeMember all fields member =
              .ok ((bytes.drop (offsetOf members i)).take member.2.size)) ∧
    ∀ base extents traits,
      let type : Datatype := .array base extents traits
      (∀ bytes, type.size ≤ bytes.length →
        type.decode options bytes = .array ((places extents).map fun place =>
          base.decode options
            ((bytes.drop (placeNumber extents place * base.size)).take base.size))) ∧
      ∀ items,
        (items.length = gridSize extents →
          Joins (base.encode options) items (type.encode options (.array items)) ∧
          ∀ bytes, type.encode options (.array items) = .ok bytes →
            ∀ place ∈ places extents, ∃ item,
              items[placeNumber extents place]? = some item ∧
              base.encode options item =
                .ok ((bytes.drop (placeNumber extents place * base.size)).take base.size)) ∧
        (items.length ≠ gridSize extents →
          type.encode options (.array items) =
            .error (.sizeMismatch (gridSize extents) items.length)) := by
  constructor
  · intro members traits type all
    refine ⟨memberOffsets_compound members traits, fun p => existsUnique_ownsByte,
      fun bytes => decode_compound traits, fun fields => ?_⟩
    have hjoins := joins_encode_compound convertText members traits fields
    refine ⟨hjoins, fun bytes hbytes i member hmember => ?_⟩
    obtain ⟨pieces, hpieces, rfl⟩ := (hjoins.ok_iff bytes).1 hbytes
    exact encodeMember_of_pieces hpieces hmember
  · intro base extents traits type
    refine ⟨fun bytes => decode_array base extents traits, fun items =>
      ⟨fun hcount => ?_, encode_array_of_ne base traits⟩⟩
    have hjoins := joins_encode_array options base traits hcount
    refine ⟨hjoins, fun bytes hbytes place hplace => ?_⟩
    obtain ⟨pieces, hpieces, rfl⟩ := (hjoins.ok_iff bytes).1 hbytes
    -- each place has an item
    have hnumber : placeNumber extents place < items.length :=
      hcount ▸ placeNumber_lt hplace
    exact ⟨_, List.getElem?_eq_getElem hnumber,
      encode_of_pieces hpieces (List.getElem?_eq_getElem hnumber)⟩

/-- A number and a row of two numbers: the number has no field once, and once
none that is a number. -/
theorem decode_encode_concatenation_record :
    let pair := arrayOf ((ofInteger 2 false).withOrder .big) [1, 2]
    let type := ofMembers [("n", ofInteger 1 false), ("pair", pair)]
    let word (n : BitVec 16) : Value := .int ⟨.two, false⟩ n
    type.memberOffsets = [0, 1] ∧
      type.decode {} [7, 1, 2, 0, 3, 9] = .compound
        [("n", .int ⟨.one, false⟩ 7), ("pair", .array [word 258, word 3])] ∧
      type.encode {} (.compound [("pair", .array [word 258, word 3])]) = .ok [0, 1, 2, 0, 3] ∧
      type.encode {} (.compound [("n", .text "x"), ("pair", .array [])]) =
        .error (.typeMismatch "integer" "string") ∧
      pair.encode {} (.array [word 258]) = .error (.sizeMismatch 2 1) := by
  intro pair type word
  obtain ⟨hcompounds, harrays⟩ := decode_encode_concatenation true {}
  obtain ⟨hoffsets, -, hdecode, hencode⟩ :=
    hcompounds [("n", ofInteger 1 false), ("pair", pair)] .orderless
  refine ⟨hoffsets, hdecode [7, 1, 2, 0, 3, 9] (by decide), ?_, ?_, ?_⟩
  · exact ((hencode _).1.ok_iff _).2 ⟨[[0], [1, 2, 0, 3]], rfl, rfl⟩
  · exact ((hencode _).1.error_iff _).2 ⟨[], _, _, rfl, by simp, rfl⟩
  · exact ((harrays _ [1, 2] _).2 [word 258]).2 (by decide)

end Datatype

end TypedAttr
